import PortableExecutable.Json.Skip

/-!
Reading settings from JSON text. A group of settings is written as an object of named members, of
which any may be missing and unknown ones are passed over, or as an array of the values in their
fixed order, of which the last ones may be missing. A name given twice is refused.
-/

namespace PortableExecutable
namespace JsonScanner

/-- One setting of a group `σ`: its name, and how its value is read into the group. -/
structure Setting (σ : Type) where
  name : String
  read : σ → (s : List Char) → Scanned σ s.length

/-- The fault of a value of the wrong kind. What can be scanned of it is scanned first, and a
mistake found there counts instead. -/
def wrongKind (s : List Char) : JsonFault :=
  match s with
  | '[' :: _ | '\x7b' :: _ => .unsuitable
  | '"' :: s =>
    match string s with
    | .ok (units, _) => if (text? units).isSome then .unsuitable else .malformed
    | .error fault => fault
  | 'n' :: _ | 't' :: _ | 'f' :: _ =>
    match skipScalar s with
    | .ok _ => .unsuitable
    | .error fault => fault
  | s =>
    match number s with
    | .error fault => fault
    | .ok (n, _) =>
      match n.toUInt64 with
      | .ok _ => .unsuitable
      | .error fault => fault

def readBool (s : List Char) : Scanned Bool s.length := do
  have blanks := length_skipBlanks_le s
  match (skipBlanks s).head? with
  | some 't' =>
    let rest ← skipScalar (skipBlanks s)
    return (true, rest.widen blanks)
  | some 'f' =>
    let rest ← skipScalar (skipBlanks s)
    return (false, rest.widen blanks)
  | _ => throw (wrongKind (skipBlanks s))

def readUInt64 (s : List Char) : Scanned UInt64 s.length := do
  have blanks := length_skipBlanks_le s
  if (skipBlanks s).head?.any fun c => c == '-' || c.isDigit then
    let (n, rest) ← number (skipBlanks s)
    return (← n.toUInt64, rest.widen blanks)
  else throw (wrongKind (skipBlanks s))

def mark (expected : Char) (s : List Char) : Except JsonFault (Rest s.length) :=
  have blanks := length_skipBlanks_le s
  match h : skipBlanks s with
  | c :: rest => if c = expected then .ok ⟨rest, by grind⟩ else .error .malformed
  | [] => .error .malformed

def readName (s : List Char) : Scanned String s.length := do
  let ⟨s₁, h₁⟩ ← mark '"' s
  let (units, ⟨rest, h⟩) ← string s₁
  match text? units with
  | some chars => return (String.ofList chars, ⟨rest, by omega⟩)
  | none => throw .malformed

def upcoming (s : List Char) : Option Char := (skipBlanks s).head?

/-- Goes to the name of the next member, over the comma in front of it unless it is the first. -/
def nextMember (first : Bool) (s : List Char) : Scanned String s.length := do
  if first then readName s
  else
    let ⟨s₁, h₁⟩ ← mark ',' s
    let (name, rest) ← readName s₁
    return (name, rest.widen (by omega))

variable {σ : Type}

/-- Reads the members of an object up to its closing bracket. Those named in `seen` stood before. -/
def readMembers (settings : List (Setting σ)) (first : Bool) (seen : List String) (group : σ)
    (s : List Char) : Scanned σ s.length := do
  if upcoming s = some '\x7d' then
    return (group, ← mark '\x7d' s)
  else
    let (name, ⟨s₁, h₁⟩) ← nextMember first s
    if seen.contains name then throw .unsuitable
    else
      let ⟨s₂, h₂⟩ ← mark ':' s₁
      match settings.find? (·.name == name) with
      | none =>
        let ⟨s₃, h₃⟩ ← skipValue s₂
        let (result, rest) ← readMembers settings false seen group s₃
        return (result, rest.widen (by omega))
      | some setting =>
        let (group, ⟨s₃, h₃⟩) ← setting.read group s₂
        let (result, rest) ← readMembers settings false (name :: seen) group s₃
        return (result, rest.widen (by omega))
termination_by s.length

/-- Reads the elements of an array, one for each setting, up to its closing bracket. -/
def readElements (first : Bool) (group : σ) (s : List Char) :
    List (Setting σ) → Scanned σ s.length
  | [] => do
    return (group, ← mark ']' s)
  | setting :: settings => do
    if upcoming s = some ']' then
      return (group, ← mark ']' s)
    else if first then
      let (group, ⟨s₁, h₁⟩) ← setting.read group s
      let (result, rest) ← readElements false group s₁ settings
      return (result, rest.widen (by omega))
    else
      let ⟨s₁, h₁⟩ ← mark ',' s
      if upcoming s₁ = some ']' then throw .malformed
      else
        let (group, ⟨s₂, h₂⟩) ← setting.read group s₁
        let (result, rest) ← readElements false group s₂ settings
        return (result, rest.widen (by omega))

def readGroup (settings : List (Setting σ)) (group : σ) (s : List Char) : Scanned σ s.length := do
  match upcoming s with
  | some '\x7b' =>
    let ⟨s₁, h₁⟩ ← mark '\x7b' s
    let (result, rest) ← readMembers settings true [] group s₁
    return (result, rest.widen (by omega))
  | some '[' =>
    let ⟨s₁, h₁⟩ ← mark '[' s
    let (result, rest) ← readElements true group s₁ settings
    return (result, rest.widen (by omega))
  | _ => throw (wrongKind (skipBlanks s))

def boolSetting (name : String) (set : σ → Bool → σ) : Setting σ where
  name := name
  read := fun group s => (readBool s).map fun (b, rest) => (set group b, rest)

def wordSetting (name : String) (set : σ → UInt64 → σ) : Setting σ where
  name := name
  read := fun group s => (readUInt64 s).map fun (n, rest) => (set group n, rest)

/-- A group inside a group. Its settings start from those in `initial`. -/
def groupSetting {τ : Type} (name : String) (settings : List (Setting τ)) (initial : τ)
    (set : σ → τ → σ) : Setting σ where
  name := name
  read := fun group s =>
    (readGroup settings initial s).map fun (inner, rest) => (set group inner, rest)

/-- Reads a text that holds one group and nothing else but blanks. -/
def readText (settings : List (Setting σ)) (group : σ) (s : List Char) : Except JsonFault σ := do
  let (result, ⟨rest, _⟩) ← readGroup settings group s
  if skipBlanks rest = [] then return result else throw .malformed

end JsonScanner
end PortableExecutable
