import PortableExecutable.Json.Number

/-!
Passing over a JSON value whose content does not matter. Only its grammar is looked at, so numbers
may be of any size and escaped surrogates need not come in pairs. The brackets that are still open
are kept in a list, so that values may be nested to any depth.
-/

namespace PortableExecutable
namespace JsonScanner

inductive Bracket where
  | array
  | object

/-- Passes over the fixed words and the two kinds of value that hold no others. -/
def skipScalar (s : List Char) : Except JsonFault (Rest s.length) :=
  match s with
  | 'n' :: s => word? "ull" s
  | 't' :: s => word? "rue" s
  | 'f' :: s => word? "alse" s
  | '"' :: s => (string s).map fun (_, rest) => rest.widen (length_le_behind s)
  | s => (number s).map (·.2)
where
  word? (expected : String) (s : List Char) : Except JsonFault (Rest (s.length + 1)) :=
    match word expected.toList s with
    | some ⟨rest, _⟩ => .ok ⟨rest, by omega⟩
    | none => .error .malformed

/-- Passes over a key and its colon, the opening quote being the next character. -/
def skipKey (s : List Char) : Except JsonFault (Rest s.length) :=
  match s with
  | '"' :: s => do
    let (_, ⟨rest, _⟩) ← string s
    have blanks := length_skipBlanks_le rest
    match h : skipBlanks rest with
    | ':' :: s' =>
      .ok ⟨s', by rw [h] at blanks; simp only [List.length_cons] at *; omega⟩
    | _ => .error .malformed
  | _ => .error .malformed

mutual

/-- Passes over a value, and over what is left of the values that it stands in. -/
def skipNested (enclosing : List Bracket) (s : List Char) : Except JsonFault (Rest s.length) := do
  have blanks := length_skipBlanks_le s
  match h : skipBlanks s with
  | '[' :: s₁ =>
    have inner := length_skipBlanks_le s₁
    match h₁ : skipBlanks s₁ with
    | ']' :: s₂ =>
      let rest ← skipAfter enclosing s₂
      return ⟨rest.1, by rw [h] at blanks; rw [h₁] at inner; grind⟩
    | _ =>
      let rest ← skipNested (.array :: enclosing) s₁
      return rest.widen (by grind)
  | '\x7b' :: s₁ =>
    have inner := length_skipBlanks_le s₁
    match h₁ : skipBlanks s₁ with
    | '\x7d' :: s₂ =>
      let rest ← skipAfter enclosing s₂
      return ⟨rest.1, by grind⟩
    | s₂ =>
      let ⟨s₃, _⟩ ← skipKey s₂
      let rest ← skipNested (.object :: enclosing) s₃
      return rest.widen (by grind)
  | s₁ =>
    let ⟨s₂, _⟩ ← skipScalar s₁
    let rest ← skipAfter enclosing s₂
    return ⟨rest.1, by grind⟩
termination_by s.length
decreasing_by all_goals grind

/-- Goes on behind a value: to the next one beside it, or out of the brackets it ends. -/
def skipAfter (enclosing : List Bracket) (s : List Char) :
    Except JsonFault { r : List Char // r.length ≤ s.length } := do
  match enclosing with
  | [] => return ⟨s, Nat.le_refl _⟩
  | bracket :: outer =>
    have blanks := length_skipBlanks_le s
    match h : skipBlanks s, bracket with
    | ',' :: s₁, .array =>
      let rest ← skipNested (.array :: outer) s₁
      return ⟨rest.1, by grind⟩
    | ',' :: s₁, .object =>
      have inner := length_skipBlanks_le s₁
      let ⟨s₂, _⟩ ← skipKey (skipBlanks s₁)
      let rest ← skipNested (.object :: outer) s₂
      return ⟨rest.1, by grind⟩
    | ']' :: s₁, .array =>
      let rest ← skipAfter outer s₁
      return ⟨rest.1, by grind⟩
    | '\x7d' :: s₁, .object =>
      let rest ← skipAfter outer s₁
      return ⟨rest.1, by grind⟩
    | _, _ => throw .malformed
termination_by s.length
decreasing_by all_goals grind

end

def skipValue (s : List Char) : Except JsonFault (Rest s.length) := skipNested [] s

end JsonScanner
end PortableExecutable
