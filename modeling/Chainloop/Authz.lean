namespace Chainloop.Authz

inductive MembershipType where
  | user
  | group
deriving DecidableEq

inductive ResourceType where
  | wholeInstance
  | organization
  | project
  | product
  | group
deriving DecidableEq

def ResourceType.text : ResourceType → String
  | .wholeInstance => "instance"
  | .organization => "organization"
  | .project => "project"
  | .product => "product"
  | .group => "group"

inductive Role where
  | instanceAdmin
  | owner
  | admin
  | viewer
  | orgMember
  | orgContributor
  | projectAdmin
  | projectViewer
  | groupMaintainer
  | productViewer
  | productAdmin
deriving DecidableEq

def Role.rbacEnabled (r : Role) : Bool := r == .orgMember || r == .orgContributor

def Role.isAdmin (r : Role) : Bool := r == .admin || r == .owner

def Role.text : Role → String
  | .instanceAdmin => "role:instance:admin"
  | .owner => "role:org:owner"
  | .admin => "role:org:admin"
  | .viewer => "role:org:viewer"
  | .orgMember => "role:org:member"
  | .orgContributor => "role:org:contributor"
  | .projectAdmin => "role:project:admin"
  | .projectViewer => "role:project:viewer"
  | .groupMaintainer => "role:group:maintainer"
  | .productViewer => "role:product:viewer"
  | .productAdmin => "role:product:admin"

structure Policy where
  resource : String
  action : String
deriving DecidableEq

-- The scope claim of an instance token from before the scope was signed.
def scopeInstanceAdmin : String := "INSTANCE_ADMIN"

end Chainloop.Authz
