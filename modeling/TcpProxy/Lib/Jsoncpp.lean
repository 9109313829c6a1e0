import Mathlib.Algebra.Group.Int.Defs
import Mathlib.Algebra.Group.Nat.Defs
import Mathlib.Tactic.Common

/-!
# jsoncpp values

The value type and the accessors a reader of a small message uses, each throwing where jsoncpp's
does: `operator[]` on a value that is neither null nor an object, `asString` on an array or an
object, `asInt` on a value not convertible to `int`. Reals are the finite ones, as their exact
values. `Impl` is what is left open of the library: which bodies parse to which value
(`parseFromStream` accepts any value at the root), on which ones the reader itself throws, and how
a number is written.
-/

namespace Jsoncpp

inductive Value
  | null
  | bool (b : Bool)
  | int (v : Int64)
  | uint (v : UInt64)
  | real (v : Rat)
  | string (s : String)
  | array (vs : List Value)
  | object (members : List (String × Value))

/-- `Json::LogicError` and `Json::RuntimeError`. -/
inductive Exn
  | logicError
  | runtimeError
  deriving DecidableEq

/-- The characters of a number's text. -/
def isNumberChar (c : Char) : Bool := c.isDigit || c == '+' || c == '-' || c == '.' || c == 'e'

/-- The rest of the library. -/
structure Impl where
  /-- `parseFromStream` with the default `CharReaderBuilder`; `none` where it fails. It throws on a
  value that is nested deeper than the builder's `stackLimit`. -/
  parseFromStream : List UInt8 → Except Exn (Option Value)
  /-- `valueToString` of a number. -/
  numberText : Value → String
  numberText_chars : ∀ v, ∀ c ∈ (numberText v).toList, isNumberChar c = true

def minInt : Int := -2 ^ 31
def maxInt : Int := 2 ^ 31 - 1

namespace Value

/-- `operator[](const char*)`. -/
def member (v : Value) (key : String) : Except Exn Value :=
  match v with
  | null => .ok null
  | object members => .ok ((members.find? fun m => m.1 = key).elim null (·.2))
  | _ => .error .logicError

/-- `empty()`. -/
def isEmpty : Value → Bool
  | null => true
  | array vs => vs.isEmpty
  | object members => members.isEmpty
  | _ => false

/-- `asInt()`'s value, where the value is convertible. -/
def toInt? : Value → Option Int
  | null => some 0
  | bool b => some (if b then 1 else 0)
  | int v => if minInt ≤ v.toInt ∧ v.toInt ≤ maxInt then some v.toInt else none
  | uint v => if (v.toNat : Int) ≤ maxInt then some v.toNat else none
  | real v => if (minInt : Rat) ≤ v ∧ v ≤ (maxInt : Rat) then some (v.num.tdiv v.den) else none
  | _ => none

/-- `isConvertibleTo(intValue)`. -/
def isConvertibleToInt (v : Value) : Bool := v.toInt?.isSome

def asInt (v : Value) : Except Exn Int :=
  match v.toInt? with
  | some n => .ok n
  | none => .error .logicError

def asString (J : Impl) : Value → Except Exn String
  | null => .ok ""
  | bool b => .ok (if b then "true" else "false")
  | string s => .ok s
  | array _ => .error .logicError
  | object _ => .error .logicError
  | v => .ok (J.numberText v)

/-- `operator[]` has a value to return. -/
def isKeyed : Value → Bool
  | null => true
  | object _ => true
  | _ => false

/-- `asString` has a text to return. -/
def isText : Value → Bool
  | array _ => false
  | object _ => false
  | _ => true

@[simp] theorem asInt_ok {v : Value} {n : Int} : v.asInt = .ok n ↔ v.toInt? = some n := by
  unfold asInt
  cases v.toInt? <;> simp

/-- An empty value is null, or an array or object without members. -/
theorem toInt?_of_isEmpty {v : Value} (h : v.isEmpty = true) : v = null ∨ v.toInt? = none := by
  cases v <;> simp_all [isEmpty, toInt?]

/-- A keyed value's members; the others throw. -/
theorem member_eq (v : Value) (key : String) :
    (∃ x, v.member key = .ok x) ↔ v.isKeyed = true := by
  cases v <;> simp [member, isKeyed]

theorem asString_eq (J : Impl) (v : Value) : (∃ s, v.asString J = .ok s) ↔ v.isText = true := by
  cases v <;> simp [asString, isText]

/-- No number and no boolean is written as `s` if `s` has a character of no number's text and is
neither boolean's. -/
theorem asString_eq_string {J : Impl} {v : Value} {s : String} (hs : v.asString J = .ok s)
    (hn : ∃ c ∈ s.toList, isNumberChar c = false) (ht : s ≠ "true") (hf : s ≠ "false") :
    v = string s := by
  obtain ⟨c, hc, hcn⟩ := hn
  cases v with
  | null => simp only [asString, Except.ok.injEq] at hs; subst hs; simp at hc
  | bool b =>
    simp only [asString, Except.ok.injEq] at hs
    cases b
    · exact absurd hs.symm hf
    · exact absurd hs.symm ht
  | string t => simp only [asString, Except.ok.injEq] at hs; rw [hs]
  | array vs => simp [asString] at hs
  | object ms => simp [asString] at hs
  | int _ | uint _ | real _ =>
    simp only [asString, Except.ok.injEq] at hs
    subst hs
    rw [J.numberText_chars _ c hc] at hcn
    cases hcn

end Value

end Jsoncpp
