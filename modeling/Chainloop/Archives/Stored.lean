import Chainloop.Archives.Walk

namespace Chainloop.Archives.Stored

open Go

-- The readers on the archives that store their content without compression: gzip members of
-- stored blocks, and tars with plain ustar headers. Other content ends with an error here.

def little (bytes : List UInt8) : Nat := bytes.foldr (fun b n => b.toNat + 256 * n) 0

def crcShift (c : UInt32) : UInt32 := if c % 2 = 1 then (0xedb88320 : UInt32) ^^^ (c >>> 1) else c >>> 1

def crcByte (c : UInt32) (b : UInt8) : UInt32 :=
  crcShift (crcShift (crcShift (crcShift (crcShift (crcShift (crcShift (crcShift
    (c ^^^ b.toUInt32))))))))

def crc32 (bytes : List UInt8) : UInt32 := bytes.foldl crcByte 0xffffffff ^^^ 0xffffffff

example : crc32 [49, 50, 51, 52, 53, 54, 55, 56, 57] = 0xcbf43926 := by decide +kernel

def errUnexpectedEOF : GoError := .new "unexpected EOF"

def errGzipHeader : GoError := .new "gzip: invalid header"

def errChecksum : GoError := .new "gzip: invalid checksum"

def errFlate : GoError := .new "flate: corrupt input"

def takeExact (n : Nat) (data : List UInt8) : Except GoError (List UInt8 × List UInt8) :=
  if n ≤ data.length then .ok (data.take n, data.drop n) else .error errUnexpectedEOF

def skipString (data : List UInt8) : Except GoError (List UInt8) :=
  let field := data.takeWhile (· ≠ 0)
  if 512 ≤ field.length then .error errGzipHeader
  else if field.length = data.length then .error errUnexpectedEOF
  else .ok (data.drop (field.length + 1))

def readHeader (data : List UInt8) : Except GoError (List UInt8) := do
  let (fixed, rest) ← takeExact 10 data
  let flags := (fixed.getD 3 0).toNat
  if fixed.take 3 ≠ [0x1f, 0x8b, 8] then throw errGzipHeader
  let rest ←
    if flags / 4 % 2 = 1 then do
      let (size, rest) ← takeExact 2 rest
      let (_, rest) ← takeExact (little size) rest
      pure rest
    else pure rest
  let rest ← if flags / 8 % 2 = 1 then skipString rest else pure rest
  let rest ← if flags / 16 % 2 = 1 then skipString rest else pure rest
  if flags / 2 % 2 = 1 then do
    let (digest, after) ← takeExact 2 rest
    let header := data.take (data.length - rest.length)
    if little digest ≠ (crc32 header).toNat % 2 ^ 16 then throw errGzipHeader
    return after
  else return rest

def readBlocks : Nat → List UInt8 → List UInt8 × Except GoError (List UInt8)
  | 0, _ => ([], .error errUnexpectedEOF)
  | fuel + 1, data =>
    match data with
    | b :: l0 :: l1 :: n0 :: n1 :: rest =>
      let size := little [l0, l1]
      if b.toNat / 2 % 4 ≠ 0 ∨ size + little [n0, n1] ≠ 0xffff then ([], .error errFlate)
      else if rest.length < size then (rest, .error errUnexpectedEOF)
      else if b.toNat % 2 = 1 then (rest.take size, .ok (rest.drop size))
      else
        let next := readBlocks fuel (rest.drop size)
        (rest.take size ++ next.1, next.2)
    | _ => ([], .error errUnexpectedEOF)

def readMembers : Nat → List UInt8 → Stream
  | 0, _ => ⟨[], .failed errUnexpectedEOF⟩
  | fuel + 1, data =>
    match readBlocks data.length data with
    | (bytes, .error err) => ⟨bytes, .failed err⟩
    | (bytes, .ok rest) =>
      match takeExact 8 rest with
      | .error err => ⟨bytes, .failed err⟩
      | .ok (footer, rest) =>
        if little (footer.take 4) ≠ (crc32 bytes).toNat ∨
            little (footer.drop 4) ≠ bytes.length % 2 ^ 32 then ⟨bytes, .failed errChecksum⟩
        else if rest.isEmpty then ⟨bytes, .eof⟩
        else
          match readHeader rest with
          | .error err => ⟨bytes, .failed err⟩
          | .ok rest =>
            let next := readMembers fuel rest
            ⟨bytes ++ next.bytes, next.ending⟩

def gzip (data : List UInt8) : Except GoError Stream :=
  (readHeader data).map (readMembers data.length)

def errTarHeader : GoError := .new "archive/tar: invalid tar header"

def cString (field : List UInt8) : List UInt8 := field.takeWhile (· ≠ 0)

def octal (field : List UInt8) : Option Nat :=
  let digits := ((field.dropWhile (· = 32)).takeWhile fun b => b ≠ 0 ∧ b ≠ 32)
  digits.foldl (fun n b => n.bind fun n =>
    if 48 ≤ b ∧ b ≤ 55 then some (8 * n + (b.toNat - 48)) else none) (some 0)

def slice (start size : Nat) (block : List UInt8) : List UInt8 := (block.drop start).take size

def checksum (block : List UInt8) : Nat :=
  ((block.take 148).map UInt8.toNat).sum + 8 * 32 + ((block.drop 156).map UInt8.toNat).sum

structure Header where
  name : String
  regular : Bool
  size : Nat

def parseHeader (block : List UInt8) : Except GoError Header :=
  match octal (slice 148 8 block), octal (slice 124 12 block) with
  | some sum, some size =>
    let typeflag := block.getD 156 0
    if sum ≠ checksum block ∨ slice 257 6 block ≠ bytes "ustar" ++ [0] then .error errTarHeader
    else if typeflag ≠ 0 ∧ (typeflag < 48 ∨ 54 < typeflag) then .error errTarHeader
    else
      let directory := cString (slice 345 155 block)
      let base := cString (slice 0 100 block)
      let name := if directory.isEmpty then base else directory ++ [47] ++ base
      let regular := typeflag = 48 ∨ (typeflag = 0 ∧ name.getLast? ≠ some 47)
      .ok ⟨textOf name, regular, if regular then size else 0⟩
  | _, _ => .error errTarHeader

def failure (src : Stream) : GoError :=
  match src.ending with
  | .eof => errUnexpectedEOF
  | .failed err => err

def tarFrom : Nat → Stream → TarListing
  | 0, src => ⟨[], .failed (failure src)⟩
  | fuel + 1, src =>
    if src.bytes.isEmpty then ⟨[], src.ending⟩
    else if src.bytes.length < 512 then ⟨[], .failed (failure src)⟩
    else
      let block := src.bytes.take 512
      let rest := src.bytes.drop 512
      if block.all (· = 0) then
        -- The second zero block ends the archive.
        if rest.isEmpty then ⟨[], src.ending⟩
        else if rest.length < 512 then ⟨[], .failed (failure src)⟩
        else ⟨[], if (rest.take 512).all (· = 0) then .eof else .failed errTarHeader⟩
      else
        match parseHeader block with
        | .error err => ⟨[], .failed err⟩
        | .ok header =>
          let entry := TarEntry.mk header.name header.regular header.size
          let padded := (header.size + 511) / 512 * 512
          if rest.length < header.size then
            ⟨[entry ⟨rest, .failed (failure src)⟩], .failed (failure src)⟩
          else
            let next := if rest.length < padded then ⟨[], src.ending⟩
              else tarFrom fuel ⟨rest.drop padded, src.ending⟩
            ⟨entry (.ofBytes (rest.take header.size)) :: next.entries, next.ending⟩

def tar (src : Stream) : TarListing := tarFrom src.bytes.length src

def std : Std := ⟨gzip, fun _ => .error (.new "zip: not a valid zip file"), tar⟩

def littleBytes (width n : Nat) : List UInt8 :=
  (List.range width).map fun i => UInt8.ofNat (n / 256 ^ i)

def putBlock (final : UInt8) (block : List UInt8) : List UInt8 :=
  final :: (littleBytes 2 block.length ++ littleBytes 2 (0xffff - block.length) ++ block)

def putBlocks : List (List UInt8) → List UInt8
  | [] => putBlock 1 []
  | [block] => putBlock 1 block
  | block :: blocks => putBlock 0 block ++ putBlocks blocks

def gzipHeader : List UInt8 := [0x1f, 0x8b, 8, 0, 0, 0, 0, 0, 0, 255]

def gzipBlocks (blocks : List (List UInt8)) : List UInt8 :=
  gzipHeader ++ putBlocks blocks ++ littleBytes 4 (crc32 blocks.flatten).toNat ++
    littleBytes 4 blocks.flatten.length

def gzipMember (bytes : List UInt8) : List UInt8 := gzipBlocks [bytes]

def octalBytes (width n : Nat) : List UInt8 :=
  (List.range width).reverse.map fun i => UInt8.ofNat (48 + n / 8 ^ i % 8)

def padTo (size : Nat) (field : List UInt8) : List UInt8 :=
  field ++ List.replicate (size - field.length) 0

def tarHeader (name : String) (size : Nat) : List UInt8 :=
  let front := padTo 100 (bytes name) ++ padTo 8 (octalBytes 7 0o644) ++ padTo 8 (octalBytes 7 0) ++
    padTo 8 (octalBytes 7 0) ++ padTo 12 (octalBytes 11 size) ++ padTo 12 (octalBytes 11 0)
  let back := padTo 356 ([48] ++ List.replicate 100 0 ++ bytes "ustar" ++ [0, 48, 48])
  let sum := checksum (front ++ List.replicate 8 32 ++ back)
  front ++ octalBytes 6 sum ++ [0, 32] ++ back

def tarFile (name : String) (content : List UInt8) : List UInt8 :=
  tarHeader name content.length ++ padTo ((content.length + 511) / 512 * 512) content

def tarOf (files : List (String × List UInt8)) : List UInt8 :=
  files.flatMap (fun f => tarFile f.1 f.2) ++ List.replicate 1024 0

end Chainloop.Archives.Stored
