import Mathlib.Data.String.Basic
import Mathlib.Tactic.Common

/-!
# The order of texts and of their bytes

Texts are compared character by character, and so are their bytes in UTF-8: both orders are the same
(`lt_iff_bytes_lt`).  All that this rests on is that the code of a lesser character comes before the
code of a greater one whatever follows them (`utf8EncodeChar_append_lt`).  A longer code starts with
a greater byte, and among codes of one length the bytes are the digits of the character to base
sixty-four.
-/

namespace SmallLisp.Text

/-- The bytes of a text in UTF-8. -/
def bytes (text : String) : List UInt8 := text.toUTF8.data.toList

theorem bytes_eq (text : String) : bytes text = text.toList.flatMap String.utf8EncodeChar := by
  have hbytes : text.toUTF8 = text.toList.utf8Encode := by
    rw [String.toUTF8_eq_toByteArray, ← String.toByteArray_ofList, String.ofList_toList]
  rw [bytes, hbytes, List.utf8Encode, List.data_toByteArray]

/-- The code of a lesser character is the lesser one, whatever follows. -/
theorem utf8EncodeChar_append_lt {c d : Char} (h : c < d) (xs ys : List UInt8) :
    String.utf8EncodeChar c ++ xs < String.utf8EncodeChar d ++ ys := by
  have hlt : c.val.toNat < d.val.toNat := h
  have hlimit : d.val.toNat < 0x110000 := by
    rcases d.valid with hd | hd <;> omega
  have htwo (n : ℕ) : n / 4096 = n / 64 / 64 := (Nat.div_div_eq_div_mul n 64 64).symm
  have hthree (n : ℕ) : n / 262144 = n / 64 / 64 / 64 := by
    rw [Nat.div_div_eq_div_mul, Nat.div_div_eq_div_mul]
  unfold String.utf8EncodeChar
  generalize c.val.toNat = m at hlt
  generalize d.val.toNat = n at hlt hlimit
  dsimp only
  -- One case for each pair of lengths; the greater character has no shorter code.
  split_ifs <;> simp only [List.cons_append, List.nil_append, List.cons_lt_cons_iff,
    UInt8.lt_iff_toNat_lt, ← UInt8.toNat_inj, UInt8.toNat_ofNat', htwo, hthree] <;> omega

theorem flatMap_utf8EncodeChar_lt {cs ds : List Char} (h : cs < ds) :
    cs.flatMap String.utf8EncodeChar < ds.flatMap String.utf8EncodeChar := by
  induction cs generalizing ds with
  | nil =>
    rcases ds with _ | ⟨d, ds⟩
    · exact absurd h (List.not_lt_nil _)
    · have hne : String.utf8EncodeChar d ≠ [] := String.utf8EncodeChar_ne_nil
      obtain ⟨byte, bytes, hcode⟩ := List.exists_cons_of_ne_nil hne
      rw [List.flatMap_nil, List.flatMap_cons, hcode]
      exact List.nil_lt_cons ..
  | cons c cs ih =>
    rcases ds with _ | ⟨d, ds⟩
    · exact absurd h (List.not_lt_nil _)
    · rw [List.flatMap_cons, List.flatMap_cons]
      rcases List.cons_lt_cons_iff.1 h with hcd | ⟨rfl, hrest⟩
      · exact utf8EncodeChar_append_lt hcd _ _
      · exact List.append_left_lt (ih hrest)

/-- A coding that keeps the order of texts tells it. -/
theorem lt_iff_of_forall_lt {α : Type} [LT α] [Std.Asymm fun x y : α => x < y]
    {code : String → List α} (hcode : ∀ {a b : String}, a < b → code a < code b) {a b : String} :
    a < b ↔ code a < code b := by
  refine ⟨hcode, fun h => ?_⟩
  rcases lt_trichotomy a b with hab | rfl | hba
  · exact hab
  · exact absurd h (List.lt_irrefl _)
  · exact absurd h (List.lt_asymm (hcode hba))

/-- Texts are in the order of their bytes. -/
theorem lt_iff_bytes_lt {a b : String} : a < b ↔ bytes a < bytes b := by
  refine lt_iff_of_forall_lt fun {a b} h => ?_
  rw [bytes_eq, bytes_eq]
  exact flatMap_utf8EncodeChar_lt (String.lt_iff_toList_lt.1 h)

/-- The code points of the characters of a text. -/
def codePoints (text : String) : List ℕ := text.toList.map Char.toNat

/-- Texts are in the order of their code points. -/
theorem lt_iff_codePoints_lt {a b : String} : a < b ↔ codePoints a < codePoints b := by
  refine lt_iff_of_forall_lt fun {a b} h => ?_
  exact List.map_lt (fun _ _ hlt => hlt) (String.lt_iff_toList_lt.1 h)

end SmallLisp.Text
