import Mathlib.Algebra.Group.Int.Defs
import Mathlib.Algebra.Group.Nat.Defs
import Mathlib.Tactic.Common

/-!
# 32-bit words in network byte order

`ofBytes`/`toBytes`: four bytes as a big-endian word and back, inverse to each other
(`ofBytes_toBytes`, `toBytes_ofBytes`). `word bs i` is the `i`-th word of a byte string
(`ntohl(((int*)bs)[i])`); a byte string starts with given words exactly if it is long enough and
its words are those (`encode_prefix_iff`).
-/

namespace Word32

/-- Four bytes, the most significant first. -/
def ofBytes : List UInt8 → BitVec 32
  | [a, b, c, d] => a.toBitVec ++ b.toBitVec ++ c.toBitVec ++ d.toBitVec
  | _ => 0

def toBytes (w : BitVec 32) : List UInt8 :=
  [⟨w.extractLsb' 24 8⟩, ⟨w.extractLsb' 16 8⟩, ⟨w.extractLsb' 8 8⟩, ⟨w.extractLsb' 0 8⟩]

/-- The `i`-th word of a byte string. -/
def word (bs : List UInt8) (i : Nat) : BitVec 32 := ofBytes ((bs.drop (4 * i)).take 4)

/-- The bytes of a sequence of words. -/
def encode (ws : List (BitVec 32)) : List UInt8 := ws.flatMap toBytes

@[simp] theorem length_toBytes (w : BitVec 32) : (toBytes w).length = 4 := rfl

theorem ofBytes_toBytes (w : BitVec 32) : ofBytes (toBytes w) = w := by
  simp only [ofBytes, toBytes]
  apply BitVec.eq_of_getLsbD_eq
  intro i hi
  simp only [BitVec.getLsbD_append, BitVec.getLsbD_extractLsb']
  grind

theorem toBytes_ofBytes (a b c d : UInt8) : toBytes (ofBytes [a, b, c, d]) = [a, b, c, d] := by
  simp only [ofBytes, toBytes, List.cons.injEq, and_true]
  refine ⟨?_, ?_, ?_, ?_⟩ <;> apply UInt8.toBitVec_inj.1 <;> apply BitVec.eq_of_getLsbD_eq <;>
    intro i hi <;> simp only [BitVec.getLsbD_append, BitVec.getLsbD_extractLsb'] <;> grind

/-- Four bytes are those of a word exactly if they read as it. -/
theorem toBytes_eq_iff {w : BitVec 32} {a b c d : UInt8} :
    toBytes w = [a, b, c, d] ↔ ofBytes [a, b, c, d] = w :=
  ⟨fun h => h ▸ ofBytes_toBytes w, fun h => h ▸ toBytes_ofBytes a b c d⟩

@[simp] theorem length_encode (ws : List (BitVec 32)) : (encode ws).length = 4 * ws.length := by
  induction ws with
  | nil => rfl
  | cons w ws ih =>
    have : encode (w :: ws) = toBytes w ++ encode ws := rfl
    rw [this, List.length_append, ih, length_toBytes, List.length_cons]
    omega

/-- A word that lies within a prefix is the prefix's. -/
theorem word_append {bs cs : List UInt8} {i : Nat} (h : 4 * (i + 1) ≤ bs.length) :
    word (bs ++ cs) i = word bs i := by
  unfold word
  rw [List.drop_append_of_le_length (by omega), List.take_append_of_le_length]
  rw [List.length_drop]
  omega

theorem word_succ (a b c d : UInt8) (bs : List UInt8) (i : Nat) :
    word (a :: b :: c :: d :: bs) (i + 1) = word bs i := by
  simp only [word, Nat.mul_add, Nat.mul_one, List.drop_succ_cons]

/-- **A byte string starts with the words `ws`** exactly if it is long enough and its words are
those of `ws`. -/
theorem encode_prefix_iff : ∀ {ws : List (BitVec 32)} {bs : List UInt8},
    encode ws <+: bs ↔ 4 * ws.length ≤ bs.length ∧ ∀ i (h : i < ws.length), word bs i = ws[i]
  | [], bs => by simp [encode]
  | w :: ws, a :: b :: c :: d :: bs => by
    have ih : encode ws <+: bs ↔ _ := encode_prefix_iff
    have hcons : encode (w :: ws) <+: a :: b :: c :: d :: bs ↔
        toBytes w = [a, b, c, d] ∧ encode ws <+: bs := by
      simp [encode, toBytes, List.cons_prefix_cons, and_assoc]
    rw [hcons, ih, toBytes_eq_iff]
    constructor
    · rintro ⟨hw, hl, hi⟩
      refine ⟨by simp only [List.length_cons]; omega, fun i h => ?_⟩
      cases i with
      | zero => exact hw
      | succ i => rw [word_succ]; exact hi i (by simpa using h)
    · rintro ⟨hl, hi⟩
      refine ⟨hi 0 (by simp), by simp only [List.length_cons] at hl; omega, fun i h => ?_⟩
      rw [← word_succ a b c d]
      exact hi (i + 1) (by simpa using h)
  | w :: ws, [] | w :: ws, [_] | w :: ws, [_, _] | w :: ws, [_, _, _] => by
    constructor
    · intro h
      have := h.length_le
      simp only [length_encode, List.length_cons, List.length_nil] at this
      omega
    · rintro ⟨h, -⟩
      simp only [List.length_cons, List.length_nil] at h
      omega

/-- The word of an `int`, read as an `int`. -/
theorem toInt_ofInt {k : Int} (hlo : -2 ^ 31 ≤ k) (hhi : k < 2 ^ 31) :
    (BitVec.ofInt 32 k).toInt = k := by
  rw [BitVec.toInt_ofInt]
  exact Int.bmod_eq_of_le (by omega) (by omega)

theorem ofInt_toInt (w : BitVec 32) : BitVec.ofInt 32 w.toInt = w := BitVec.ofInt_toInt

end Word32
