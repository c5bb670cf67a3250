import FedTrack.Digest.Sha256
import Mathlib.Data.List.Basic

namespace FedTrack.Sha256

theorem toList_loop (bytes : ByteArray) (i : Nat) (taken : List UInt8) :
    ByteArray.toList.loop bytes i taken = taken.reverse ++ bytes.data.toList.drop i := by
  fun_induction ByteArray.toList.loop bytes i taken with
  | case1 i taken hi ih =>
    have hlt : i < bytes.data.toList.length := by simpa using hi
    have hget : bytes.get! i = bytes.data.toList[i] := by
      simp [ByteArray.get!, hi]
    rw [ih, List.drop_eq_getElem_cons hlt, hget]
    simp
  | case2 i taken hi =>
    have hle : bytes.data.toList.length ≤ i := by simpa using hi
    rw [List.drop_eq_nil_of_le hle, List.append_nil]

/-- What is digested of a text. -/
def message (s : String) : List UInt8 := s.toUTF8.toList

theorem message_inj {s t : String} (h : message s = message t) : s = t := by
  simp only [message, ByteArray.toList, toList_loop, List.reverse_nil, List.nil_append,
    List.drop_zero] at h
  exact String.toByteArray_inj.mp (ByteArray.ext (Array.toList_inj.mp h))

theorem hex_inj {a b : List UInt8} (h : hex a = hex b) : a = b := by
  have hchars := String.ofList_inj.mp h
  induction a generalizing b with
  | nil =>
    cases b with
    | nil => rfl
    | cons y b => cases hchars
  | cons x a ih =>
    cases b with
    | nil => cases hchars
    | cons y b =>
      simp only [List.flatMap_cons, List.cons_append, List.nil_append, List.cons.injEq] at hchars
      obtain ⟨hhigh, hlow, hrest⟩ := hchars
      have hx := x.toNat_lt
      have hy := y.toNat_lt
      have hdiv : x.toNat / 16 = y.toNat / 16 := hexDigit_inj (by omega) (by omega) hhigh
      have hmod : x.toNat % 16 = y.toNat % 16 := hexDigit_inj (by omega) (by omega) hlow
      have hxy : x = y := UInt8.toNat_inj.mp (by omega)
      rw [hxy, ih (by rw [hex, hex, hrest]) hrest]

/-- No two of the messages have one digest. -/
def Apart (messages : List (List UInt8)) : Prop :=
  ∀ a ∈ messages, ∀ b ∈ messages, digest a = digest b → a = b

instance (messages : List (List UInt8)) : Decidable (Apart messages) :=
  inferInstanceAs (Decidable (∀ a ∈ messages, ∀ b ∈ messages, _))

/-- Messages that are told apart have texts that are told apart. -/
theorem hexDigest_inj {messages : List (List UInt8)} (h : Apart messages) {s t : String}
    (hs : message s ∈ messages) (ht : message t ∈ messages) (he : hexDigest s = hexDigest t) :
    s = t :=
  message_inj (h _ hs _ ht (hex_inj he))

end FedTrack.Sha256
