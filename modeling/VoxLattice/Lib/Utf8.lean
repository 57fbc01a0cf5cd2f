import Mathlib.Data.List.Basic

/-!
# UTF-8 that is cut at a byte limit

`decodeIgnore` is the decoder that skips what it cannot decode.  Applied to the first bytes of an
encoded text it returns the code points that fit, and nothing of the one that was cut
(`decodeIgnore_take`): no code point begins inside the encoding of another.
-/

namespace Utf8

/-- The encoding of a text. -/
def encode (text : List Char) : List UInt8 := text.flatMap String.utf8EncodeChar

/-- The code point the bytes begin with. -/
def decodeChar? (bytes : List UInt8) : Option Char := bytes.toByteArray.utf8DecodeChar? 0

/-- The rounds of the decoder: a byte no code point begins at is skipped. -/
def decodeLoop : Nat → List UInt8 → List Char
  | 0, _ => []
  | _ + 1, [] => []
  | rounds + 1, byte :: rest =>
    match decodeChar? (byte :: rest) with
    | some c => c :: decodeLoop rounds ((byte :: rest).drop c.utf8Size)
    | none => decodeLoop rounds rest

/-- The decoder that ignores errors. -/
def decodeIgnore (bytes : List UInt8) : List Char := decodeLoop bytes.length bytes

/-- The first code points of a text whose encoding has at most `n` bytes. -/
def keep : Nat → List Char → List Char
  | _, [] => []
  | n, c :: text => if c.utf8Size ≤ n then c :: keep (n - c.utf8Size) text else []

/-- `part` is the longest beginning of the text whose encoding has at most `n` bytes. -/
structure LongestWithin (n : Nat) (text part : List Char) : Prop where
  starts : part <+: text
  fits : (encode part).length ≤ n
  longest : ∀ other, other <+: text → (encode other).length ≤ n → other.length ≤ part.length

@[simp] theorem encode_nil : encode [] = [] := rfl

theorem encode_cons (c : Char) (text : List Char) :
    encode (c :: text) = String.utf8EncodeChar c ++ encode text := rfl

/-! ## One code point -/

theorem decodeChar?_append (c : Char) (rest : List UInt8) :
    decodeChar? (String.utf8EncodeChar c ++ rest) = some c := by
  rw [decodeChar?, List.toByteArray_append]
  exact ByteArray.utf8DecodeChar?_utf8EncodeChar_append

theorem decodeChar?_eq_some {bytes : List UInt8} {c : Char} (h : decodeChar? bytes = some c) :
    ∃ rest, bytes = String.utf8EncodeChar c ++ rest := by
  obtain ⟨rest, hrest⟩ := ByteArray.exists_of_utf8DecodeChar?_eq_some h
  refine ⟨rest.data.toList, ?_⟩
  have hlist := congrArg (fun b => b.data.toList) hrest
  simpa using hlist

/-- Nothing but the whole encoding of a code point decodes to something. -/
theorem decodeChar?_cut {c : Char} {part rest : List UInt8}
    (h : part ++ rest = String.utf8EncodeChar c) (hne : rest ≠ []) : decodeChar? part = none := by
  cases hpart : decodeChar? part with
  | none => rfl
  | some c' =>
      obtain ⟨more, rfl⟩ := decodeChar?_eq_some hpart
      have hwhole := decodeChar?_append c []
      rw [List.append_nil, ← h, List.append_assoc, decodeChar?_append, Option.some.injEq] at hwhole
      subst hwhole
      have hlen := congrArg List.length h
      rw [List.length_append, List.length_append] at hlen
      have hpos := List.length_pos_of_ne_nil hne
      omega

/-- No code point begins inside another. -/
theorem decodeChar?_inside {c : Char} {before : List UInt8} {byte : UInt8} {part rest : List UInt8}
    (h : before ++ byte :: part ++ rest = String.utf8EncodeChar c) (hne : before ≠ []) :
    decodeChar? (byte :: part) = none := by
  cases hpart : decodeChar? (byte :: part) with
  | none => rfl
  | some c' =>
      obtain ⟨more, hmore⟩ := decodeChar?_eq_some hpart
      -- the byte begins the encoding of `c'`, and stands inside that of `c`
      have hfirst : byte.IsUTF8FirstByte := by
        cases hbytes : String.utf8EncodeChar c' with
        | nil => exact absurd hbytes String.utf8EncodeChar_ne_nil
        | cons head tail =>
            rw [hbytes, List.cons_append, List.cons.injEq] at hmore
            have hpos : 0 < (String.utf8EncodeChar c').length := by simp [hbytes]
            have hhead : (String.utf8EncodeChar c')[0] = head := by simp [hbytes]
            rw [hmore.1, ← hhead]
            exact UInt8.isUTF8FirstByte_getElem_utf8EncodeChar.mpr rfl
      have hlt : before.length < (String.utf8EncodeChar c).length := by
        rw [← h]
        simp
      have hbyte : (String.utf8EncodeChar c)[before.length] = byte := by
        simp [← h]
      rw [← hbyte, UInt8.isUTF8FirstByte_getElem_utf8EncodeChar, List.length_eq_zero_iff] at hfirst
      exact absurd hfirst hne

/-! ## A cut text -/

/-- The rest of a code point is skipped. -/
theorem decodeLoop_inside {c : Char} (rounds : Nat) (before : List UInt8) {part rest : List UInt8}
    (h : before ++ part ++ rest = String.utf8EncodeChar c) (hne : before ≠ []) :
    decodeLoop rounds part = [] := by
  induction rounds generalizing before part with
  | zero => rfl
  | succ rounds ih =>
      cases part with
      | nil => rfl
      | cons byte part =>
          rw [decodeLoop, decodeChar?_inside h hne]
          refine ih (before ++ [byte]) ?_ (by simp)
          rw [← h]
          simp

/-- The begin of a code point is skipped. -/
theorem decodeLoop_cut {c : Char} (rounds : Nat) {part rest : List UInt8}
    (h : part ++ rest = String.utf8EncodeChar c) (hne : rest ≠ []) :
    decodeLoop rounds part = [] := by
  cases rounds with
  | zero => rfl
  | succ rounds =>
      cases part with
      | nil => rfl
      | cons byte part =>
          rw [decodeLoop, decodeChar?_cut h hne]
          exact decodeLoop_inside rounds [byte] h (by simp)

theorem decodeLoop_take (text : List Char) (n rounds : Nat)
    (h : ((encode text).take n).length ≤ rounds) :
    decodeLoop rounds ((encode text).take n) = keep n text := by
  induction text generalizing n rounds with
  | nil => cases rounds <;> simp [decodeLoop, keep]
  | cons c text ih =>
      have hlen : (String.utf8EncodeChar c).length = c.utf8Size := String.length_utf8EncodeChar c
      rw [encode_cons] at h ⊢
      rw [keep]
      split
      · next hfits =>
          have hpos := c.utf8Size_pos
          have htake : (String.utf8EncodeChar c ++ encode text).take n =
              String.utf8EncodeChar c ++ (encode text).take (n - c.utf8Size) := by
            rw [List.take_append, hlen, List.take_of_length_le (by omega)]
          rw [htake, List.length_append, hlen] at h
          cases rounds with
          | zero => omega
          | succ rounds =>
              rw [htake]
              cases hbytes : String.utf8EncodeChar c with
              | nil => exact absurd hbytes String.utf8EncodeChar_ne_nil
              | cons byte bytes =>
                  rw [List.cons_append, decodeLoop, ← List.cons_append, ← hbytes,
                    decodeChar?_append]
                  simp only [List.cons.injEq, true_and]
                  rw [← hlen, List.drop_left, hlen]
                  exact ih (n - c.utf8Size) rounds (by omega)
      · next hcut =>
          rw [List.take_append_of_le_length (by omega)]
          refine decodeLoop_cut rounds (List.take_append_drop n _) ?_
          rw [ne_eq, List.drop_eq_nil_iff]
          omega

/-- Decoding a cut encoding gives the code points that fit. -/
theorem decodeIgnore_take (text : List Char) (n : Nat) :
    decodeIgnore ((encode text).take n) = keep n text :=
  decodeLoop_take text n _ (Nat.le_refl _)

/-! ## What is kept -/

theorem length_encode_keep (n : Nat) (text : List Char) : (encode (keep n text)).length ≤ n := by
  induction text generalizing n with
  | nil => exact Nat.zero_le n
  | cons c text ih =>
      rw [keep]
      split
      · next hfits =>
          have hrest := ih (n - c.utf8Size)
          rw [encode_cons, List.length_append, String.length_utf8EncodeChar]
          omega
      · exact Nat.zero_le n

theorem keep_starts (n : Nat) (text : List Char) : keep n text <+: text := by
  induction text generalizing n with
  | nil => exact List.nil_prefix
  | cons c text ih =>
      rw [keep]
      split
      · exact (List.prefix_cons_inj c).mpr (ih (n - c.utf8Size))
      · exact List.nil_prefix

/-- A beginning of the text that fits is kept. -/
theorem length_le_keep {n : Nat} {text other : List Char} (h : other <+: text)
    (hfits : (encode other).length ≤ n) : other.length ≤ (keep n text).length := by
  induction text generalizing n other with
  | nil =>
      rw [List.prefix_nil.mp h]
      exact Nat.zero_le _
  | cons c text ih =>
      cases other with
      | nil => exact Nat.zero_le _
      | cons c' other =>
          obtain ⟨rfl, hrest⟩ := List.cons_prefix_cons.mp h
          rw [encode_cons, List.length_append, String.length_utf8EncodeChar] at hfits
          rw [keep, if_pos (by omega)]
          exact Nat.succ_le_succ (ih hrest (by omega))

/-- What is kept is the longest beginning that fits. -/
theorem keep_longest (n : Nat) (text : List Char) : LongestWithin n text (keep n text) where
  starts := keep_starts n text
  fits := length_encode_keep n text
  longest _ := length_le_keep

/-- With room for any code point, something of a text is kept. -/
theorem keep_ne_nil {n : Nat} (hn : 4 ≤ n) {text : List Char} (h : text ≠ []) :
    keep n text ≠ [] := by
  cases text with
  | nil => exact absurd rfl h
  | cons c text =>
      rw [keep, if_pos (Nat.le_trans c.utf8Size_le_four hn)]
      exact List.cons_ne_nil _ _

theorem utf8ByteSize_ofList (text : List Char) :
    (String.ofList text).utf8ByteSize = (encode text).length := by
  rw [← String.size_toByteArray, String.toByteArray_ofList, List.utf8Encode, List.size_toByteArray,
    encode]

end Utf8
