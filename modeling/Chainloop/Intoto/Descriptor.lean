import Chainloop.Structpb.Codec
import Chainloop.Text.Base64

namespace Chainloop.Intoto

open Go Structpb

structure ResourceDescriptor where
  name : String
  uri : String
  digest : Map String String
  content : List UInt8
  annotations : Map String Value

def bytesCodec : Codec (List UInt8) where
  zero := []
  empty b := b.isEmpty
  encode b := .string (String.ofList (Text.Base64.encode b))
  decode
    | .string s =>
      match Text.Base64.decode s.toList with
      | some b => .ok b
      | none => .error (.new "illegal base64 data")
    | .null => .ok []
    | v => mismatch v "[]uint8"
  decode_encode b := by simp [Text.Base64.decode_encode]
  eq_zero_of_empty b h := by simpa using h

def ResourceDescriptor.fields : Fields ResourceDescriptor :=
  ((Fields.omitEmpty "name" .string).both ((Fields.omitEmpty "uri" .string).both
      ((Fields.omitEmpty "digest" (.dict .string)).both
        ((Fields.omitEmpty "content" bytesCodec).both
          (Fields.omitEmpty "annotations" (.dict .raw)) (by decide)) (by decide)) (by decide))
      (by decide)).as
    (fun d => (d.name, d.uri, d.digest, d.content, d.annotations))
    (fun ⟨name, uri, digest, content, annotations⟩ => ⟨name, uri, digest, content, annotations⟩)
    (fun _ => rfl)

def ResourceDescriptor.codec : Codec ResourceDescriptor :=
  ResourceDescriptor.fields.object ⟨"", "", .empty, [], .empty⟩

end Chainloop.Intoto
