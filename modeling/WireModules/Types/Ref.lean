/-!
# References to types

A reference is a name as spelled in a module, with arguments. Resolution adds the qualified name
of the type it is bound to and the kind of type that is finally denoted.
-/

set_option autoImplicit false

namespace WireModules

inductive TypeKind where
  | scalar
  | enum
  | unit
  | struct
  | alias
  | vector
deriving DecidableEq, Repr

namespace TypeKind

def all : List TypeKind := [.scalar, .enum, .unit, .struct, .alias, .vector]

def label : TypeKind → String
  | .scalar => "scalar"
  | .enum => "enum"
  | .unit => "unit"
  | .struct => "struct"
  | .alias => "alias"
  | .vector => "vector"

end TypeKind

structure TypeRef where
  name : String
  args : List TypeRef := []
  resolved : Option String := none
  kind : Option TypeKind := none

namespace TypeRef

mutual

def decideEq : (left right : TypeRef) → Decidable (left = right)
  | ⟨name, args, resolved, kind⟩, ⟨name', args', resolved', kind'⟩ =>
    match decideEqAll args args' with
    | isTrue sameArgs =>
      if same : name = name' ∧ resolved = resolved' ∧ kind = kind' then
        isTrue (by obtain ⟨rfl, rfl, rfl⟩ := same; rw [sameArgs])
      else isFalse fun equal => same (by injection equal; exact ⟨‹_›, ‹_›, ‹_›⟩)
    | isFalse differ => isFalse fun equal => differ (by injection equal)

def decideEqAll : (left right : List TypeRef) → Decidable (left = right)
  | [], [] => isTrue rfl
  | [], _ :: _ => isFalse nofun
  | _ :: _, [] => isFalse nofun
  | left :: lefts, right :: rights =>
    match decideEq left right with
    | isFalse differ => isFalse fun equal => differ (by injection equal)
    | isTrue same =>
      match decideEqAll lefts rights with
      | isFalse differ => isFalse fun equal => differ (by injection equal)
      | isTrue sameRest => isTrue (by rw [same, sameRest])

end

instance : DecidableEq TypeRef := decideEq

mutual

def isResolved : TypeRef → Bool
  | ⟨_, args, resolved, _⟩ => resolved.isSome && allResolved args

def allResolved : List TypeRef → Bool
  | [] => true
  | ref :: rest => ref.isResolved && allResolved rest

end

/-- The name a reference is shown by: the type it is bound to, else the name as spelled. -/
def shownName (ref : TypeRef) : String :=
  match ref.resolved with
  | some target => if target = "" then ref.name else target
  | none => ref.name

mutual

def render : TypeRef → String
  | ⟨name, args, resolved, kind⟩ =>
    match args with
    | [] => shownName ⟨name, [], resolved, kind⟩
    | first :: rest =>
      shownName ⟨name, [], resolved, kind⟩ ++ "<" ++
        ", ".intercalate (first.render :: renderAll rest) ++ ">"

def renderAll : List TypeRef → List String
  | [] => []
  | ref :: rest => ref.render :: renderAll rest

end

end TypeRef

end WireModules
