import LetFun.Text.Utf8
import Mathlib.Tactic.IntervalCases
/-!
# Bytes and characters

The reader of UTF-8 undoes the writing of UTF-8.  A character of more than one
byte is written as a first byte and continuation bytes of six bits each.  The
first byte `Begins` the character if whatever bytes fit behind it are those of one
character, and it does so for every byte that the reader takes as a first one: its
bounds for the next byte leave out what has a shorter form, the surrogates, and
what is past the last character.

Results:
* `decode_encode`: the bytes of a text are read as the text.
* `decode_eq_ok_iff`: bytes are read as a text exactly if they are its bytes.
-/
namespace LetFun.Text.Utf8

/-- The bytes that a text is written in. -/
def encode (s : String) : List UInt8 := s.toList.flatMap String.utf8EncodeChar

/-- The continuation byte of six bits. -/
def continuation (bits : Nat) : UInt8 := UInt8.ofNat (bits + 0x80)

theorem toNat_continuation {bits : Nat} (h : bits < 64) :
    (continuation bits).toNat = bits + 0x80 := by
  rw [continuation, UInt8.toNat_ofNat', Nat.mod_eq_of_lt (by omega)]

theorem exists_continuation {b low high : UInt8} (h : low ≤ b ∧ b ≤ high) (hlow : 0x80 ≤ low)
    (hhigh : high ≤ 0xbf) :
    ∃ bits < 64, b = continuation bits ∧ low.toNat ≤ bits + 0x80 ∧ bits + 0x80 ≤ high.toNat := by
  simp only [UInt8.le_iff_toNat_le, UInt8.reduceToNat] at h hlow hhigh
  have hb : b = continuation (b.toNat - 0x80) := by
    rw [← UInt8.toNat_inj, toNat_continuation (by omega)]
    omega
  exact ⟨b.toNat - 0x80, by omega, hb, by omega, by omega⟩

theorem continuation_bounds {bits : Nat} (h : bits < 64) {low high : UInt8}
    (hlow : low.toNat ≤ bits + 0x80) (hhigh : bits + 0x80 ≤ high.toNat) :
    low ≤ continuation bits ∧ continuation bits ≤ high := by
  simp only [UInt8.le_iff_toNat_le, toNat_continuation h]
  exact ⟨hlow, hhigh⟩

theorem continuation_any {bits : Nat} (h : bits < 64) :
    0x80 ≤ continuation bits ∧ continuation bits ≤ 0xbf :=
  continuation_bounds h (Nat.le_add_left ..) (Nat.add_le_add_right (Nat.le_of_lt_succ h) 0x80)

theorem bits_continuation {bits : Nat} (h : bits < 64) :
    (continuation bits - 0x80).toNat = bits := by
  rw [UInt8.toNat_sub_of_le]
  · rw [toNat_continuation h]
    exact Nat.add_sub_cancel ..
  · rw [UInt8.le_iff_toNat_le, toNat_continuation h]
    exact Nat.le_add_left ..

/-! ## Written characters -/

theorem val_ofNat {n : Nat} (h : n < 0xd800 ∨ 0xdfff < n ∧ n < 0x110000) :
    (Char.ofNat n).val.toNat = n := by
  have hvalid : n.isValidChar := h
  rw [Char.ofNat, dif_pos hvalid]
  rfl

theorem encodeChar_one {n : Nat} (h : n < 0x80) :
    String.utf8EncodeChar (Char.ofNat n) = [UInt8.ofNat n] := by
  have hv := val_ofNat (n := n) (by omega)
  simp only [String.utf8EncodeChar, hv]
  rw [if_pos (by omega)]

theorem encodeChar_two {n : Nat} (h : 0x80 ≤ n) (h' : n < 0x800) :
    String.utf8EncodeChar (Char.ofNat n) =
      [UInt8.ofNat (n / 64 + 0xc0), continuation (n % 64)] := by
  have hv := val_ofNat (n := n) (by omega)
  simp only [String.utf8EncodeChar, hv]
  have hfirst : n / 64 % 0x20 = n / 64 := Nat.mod_eq_of_lt (by omega)
  rw [if_neg (by omega), if_pos (by omega), hfirst]
  rfl

theorem encodeChar_three {n : Nat} (h : 0x800 ≤ n) (h' : n < 0x10000)
    (hs : n < 0xd800 ∨ 0xdfff < n) :
    String.utf8EncodeChar (Char.ofNat n) =
      [UInt8.ofNat (n / 4096 + 0xe0), continuation (n / 64 % 64), continuation (n % 64)] := by
  have hv := val_ofNat (n := n) (by omega)
  simp only [String.utf8EncodeChar, hv]
  have hfirst : n / 4096 % 0x10 = n / 4096 := Nat.mod_eq_of_lt (by omega)
  rw [if_neg (by omega), if_neg (by omega), if_pos (by omega), hfirst]
  rfl

theorem encodeChar_four {n : Nat} (h : 0x10000 ≤ n) (h' : n < 0x110000) :
    String.utf8EncodeChar (Char.ofNat n) =
      [UInt8.ofNat (n / 262144 + 0xf0), continuation (n / 4096 % 64), continuation (n / 64 % 64),
        continuation (n % 64)] := by
  have hv := val_ofNat (n := n) (by omega)
  simp only [String.utf8EncodeChar, hv]
  have hfirst : n / 262144 % 0x08 = n / 262144 := Nat.mod_eq_of_lt (by omega)
  rw [if_neg (by omega), if_neg (by omega), if_neg (by omega), hfirst]
  rfl

/-! ## First bytes -/

theorem lead?_two {k : Nat} (h : 2 ≤ k) (h' : k < 32) (offset : Nat) :
    lead? (UInt8.ofNat (k + 0xc0)) offset =
      some ⟨UInt8.ofNat (k + 0xc0), offset, k, 0x80, 0xbf, 0⟩ := by
  interval_cases k <;> rfl

theorem lead?_three {k : Nat} (h : k < 16) (offset : Nat) :
    lead? (UInt8.ofNat (k + 0xe0)) offset =
      some ⟨UInt8.ofNat (k + 0xe0), offset, k, if k = 0 then 0xa0 else 0x80,
        if k = 13 then 0x9f else 0xbf, 1⟩ := by
  interval_cases k <;> rfl

theorem lead?_four {k : Nat} (h : k < 5) (offset : Nat) :
    lead? (UInt8.ofNat (k + 0xf0)) offset =
      some ⟨UInt8.ofNat (k + 0xf0), offset, k, if k = 0 then 0x90 else 0x80,
        if k = 4 then 0x8f else 0xbf, 2⟩ := by
  interval_cases k <;> rfl

theorem lead?_none {b : UInt8} (h : b.toNat < 0xc2 ∨ 0xf4 < b.toNat) (offset : Nat) :
    lead? b offset = none := by
  unfold lead?
  simp only [UInt8.le_iff_toNat_le, ← UInt8.toNat_inj, UInt8.reduceToNat]
  repeat rw [if_neg (by omega)]

/-! ## Characters of several bytes -/

/-- The number of which `value` are the first bits, and the bytes continue it. -/
def join (value : Nat) (ws : List UInt8) : Nat :=
  ws.foldl (fun v w => v * 64 + (w - 0x80).toNat) value

theorem join_continuation {bits : Nat} (h : bits < 64) (value : Nat) (ws : List UInt8) :
    join value (continuation bits :: ws) = join (value * 64 + bits) ws := by
  rw [join, List.foldl_cons, bits_continuation h]
  rfl

namespace Pending

/-- The bytes may follow what is read of the character, and they end it. -/
def Fits (p : Pending) : List UInt8 → Prop
  | [] => False
  | w :: ws => (p.low ≤ w ∧ w ≤ p.high) ∧ ws.length = p.later ∧ ∀ x ∈ ws, 0x80 ≤ x ∧ x ≤ 0xbf

/-- Whatever fits behind the bytes is the end of one character that begins with them. -/
def Begins (p : Pending) (read : List UInt8) : Prop :=
  ∀ ws, p.Fits ws → String.utf8EncodeChar (Char.ofNat (join p.value ws)) = read ++ ws

end Pending

theorem begins_two {k : Nat} (h : 2 ≤ k) (h' : k < 32) (offset : Nat) :
    Pending.Begins ⟨UInt8.ofNat (k + 0xc0), offset, k, 0x80, 0xbf, 0⟩ [UInt8.ofNat (k + 0xc0)] := by
  rintro (_ | ⟨w, _ | ws⟩) ⟨hw, hlen, -⟩
  · obtain ⟨m, hm, rfl, -⟩ := exists_continuation hw (UInt8.le_refl _) (UInt8.le_refl _)
    have hk : (k * 64 + m) / 64 = k := by omega
    have hrest : (k * 64 + m) % 64 = m := by omega
    dsimp only
    rw [join_continuation hm, join, List.foldl_nil, encodeChar_two (by omega) (by omega), hk, hrest]
    rfl
  · cases hlen

theorem begins_three {k : Nat} {low high : UInt8} (h : k < 16) (hlow : 0x80 ≤ low)
    (hhigh : high ≤ 0xbf) (hshort : k = 0 → 0xa0 ≤ low.toNat)
    (hsurrogate : k = 13 → high.toNat < 0xa0) (offset : Nat) :
    Pending.Begins ⟨UInt8.ofNat (k + 0xe0), offset, k, low, high, 1⟩ [UInt8.ofNat (k + 0xe0)] := by
  rintro (_ | ⟨w, _ | ⟨x, _ | ws⟩⟩) ⟨hw, hlen, hws⟩
  · cases hlen
  · obtain ⟨m, hm, rfl, hle, hge⟩ := exists_continuation hw hlow hhigh
    obtain ⟨m', hm', rfl, -⟩ :=
      exists_continuation (hws x List.mem_cons_self) (UInt8.le_refl _) (UInt8.le_refl _)
    dsimp only at hle hge ⊢
    -- the bounds of the next byte leave out numbers below 0x800 and the surrogates
    have hk : ((k * 64 + m) * 64 + m') / 4096 = k := by omega
    have hnext : ((k * 64 + m) * 64 + m') / 64 % 64 = m := by omega
    have hrest : ((k * 64 + m) * 64 + m') % 64 = m' := by omega
    rw [join_continuation hm, join_continuation hm', join, List.foldl_nil,
      encodeChar_three (by omega) (by omega) (by omega), hk, hnext, hrest]
    rfl
  · cases hlen

theorem begins_four {k : Nat} {low high : UInt8} (h : k < 5) (hlow : 0x80 ≤ low)
    (hhigh : high ≤ 0xbf) (hshort : k = 0 → 0x90 ≤ low.toNat) (hlast : k = 4 → high.toNat < 0x90)
    (offset : Nat) :
    Pending.Begins ⟨UInt8.ofNat (k + 0xf0), offset, k, low, high, 2⟩ [UInt8.ofNat (k + 0xf0)] := by
  rintro (_ | ⟨w, _ | ⟨x, _ | ⟨y, _ | ws⟩⟩⟩) ⟨hw, hlen, hws⟩
  · cases hlen
  · cases hlen
  · obtain ⟨m, hm, rfl, hle, hge⟩ := exists_continuation hw hlow hhigh
    obtain ⟨m₁, hm₁, rfl, -⟩ :=
      exists_continuation (hws x List.mem_cons_self) (UInt8.le_refl _) (UInt8.le_refl _)
    obtain ⟨m₂, hm₂, rfl, -⟩ :=
      exists_continuation (hws y (by simp)) (UInt8.le_refl _) (UInt8.le_refl _)
    dsimp only at hle hge ⊢
    -- the bounds of the next byte leave out numbers below 0x10000 and from 0x110000 on
    have hk : (((k * 64 + m) * 64 + m₁) * 64 + m₂) / 262144 = k := by omega
    have hnext : (((k * 64 + m) * 64 + m₁) * 64 + m₂) / 4096 % 64 = m := by omega
    have hnext₁ : (((k * 64 + m) * 64 + m₁) * 64 + m₂) / 64 % 64 = m₁ := by omega
    have hrest : (((k * 64 + m) * 64 + m₁) * 64 + m₂) % 64 = m₂ := by omega
    rw [join_continuation hm, join_continuation hm₁, join_continuation hm₂, join, List.foldl_nil,
      encodeChar_four (by omega) (by omega), hk, hnext, hnext₁, hrest]
    rfl
  · cases hlen

theorem not_lt_of_lead {b : UInt8} {offset : Nat} {p : Pending} (h : lead? b offset = some p) :
    ¬b < 0x80 := by
  intro hb
  have hlt : b.toNat < 0x80 := UInt8.lt_iff_toNat_lt.1 hb
  rw [lead?_none (.inl (by omega))] at h
  cases h

/-- The first bytes of characters of two, three and four bytes. -/
theorem exists_first {b : UInt8} (h : ¬(b.toNat < 0xc2 ∨ 0xf4 < b.toNat)) :
    (∃ k, 2 ≤ k ∧ k < 32 ∧ b = UInt8.ofNat (k + 0xc0)) ∨ (∃ k < 16, b = UInt8.ofNat (k + 0xe0)) ∨
      ∃ k < 5, b = UInt8.ofNat (k + 0xf0) := by
  have hb (base : Nat) (hbase : base ≤ b.toNat) : b = UInt8.ofNat (b.toNat - base + base) := by
    rw [Nat.sub_add_cancel hbase, UInt8.ofNat_toNat]
  by_cases htwo : b.toNat < 0xe0
  · exact .inl ⟨b.toNat - 0xc0, by omega, by omega, hb 0xc0 (by omega)⟩
  · by_cases hthree : b.toNat < 0xf0
    · exact .inr (.inl ⟨b.toNat - 0xe0, by omega, hb 0xe0 (by omega)⟩)
    · exact .inr (.inr ⟨b.toNat - 0xf0, by omega, hb 0xf0 (by omega)⟩)

/-- The reader takes a byte as a first one only if it begins characters. -/
theorem begins_lead {b : UInt8} {offset : Nat} {p : Pending} (h : lead? b offset = some p) :
    p.Begins [b] := by
  by_cases hnone : b.toNat < 0xc2 ∨ 0xf4 < b.toNat
  · rw [lead?_none hnone] at h
    cases h
  · obtain ⟨k, hk, hk', rfl⟩ | ⟨k, hk, rfl⟩ | ⟨k, hk, rfl⟩ := exists_first hnone
    · rw [lead?_two hk hk'] at h
      cases h
      exact begins_two hk hk' offset
    · rw [lead?_three hk] at h
      cases h
      refine begins_three hk ?_ ?_ ?_ ?_ offset
      · split <;> decide
      · split <;> decide
      · rintro rfl
        decide
      · rintro rfl
        decide
    · rw [lead?_four hk] at h
      cases h
      refine begins_four hk ?_ ?_ ?_ ?_ offset
      · split <;> decide
      · split <;> decide
      · rintro rfl
        decide
      · rintro rfl
        decide

/-! ## Reading -/

/-- The bytes that are read of a character which is not yet ended. -/
def Held : Option Pending → List UInt8 → Prop
  | none, read => read = []
  | some p, read => p.Begins read

/-- What is read as characters are the bytes of these characters. -/
theorem of_decodeFrom {offset : Nat} {pending : Option Pending} {done cs : List Char}
    {read bytes : List UInt8} (hread : Held pending read)
    (h : decodeFrom offset pending done bytes = .ok cs) :
    ∃ ds, cs = done.reverse ++ ds ∧ read ++ bytes = ds.flatMap String.utf8EncodeChar := by
  fun_induction decodeFrom offset pending done bytes generalizing read with
  | case1 =>
    obtain rfl : read = [] := hread
    cases h
    exact ⟨[], (List.append_nil _).symm, rfl⟩
  | case2 => cases h
  | case3 offset done b bs hb ih =>
    obtain rfl : read = [] := hread
    obtain ⟨ds, rfl, hds⟩ := ih rfl h
    rw [UInt8.lt_iff_toNat_lt] at hb
    have hone := encodeChar_one (n := b.toNat) hb
    rw [UInt8.ofNat_toNat] at hone
    refine ⟨Char.ofNat b.toNat :: ds, by simp, ?_⟩
    rw [List.flatMap_cons, hone, ← hds]
    rfl
  | case4 offset done b bs hb p hp ih =>
    obtain rfl : read = [] := hread
    exact ih (begins_lead hp) h
  | case5 => cases h
  | case6 offset done b bs p hb value hlater =>
    rename_i ih
    obtain ⟨ds, rfl, hds⟩ := ih rfl h
    have hchar : String.utf8EncodeChar (Char.ofNat value) = read ++ [b] :=
      hread [b] ⟨hb, hlater.symm, by simp⟩
    refine ⟨Char.ofNat value :: ds, by simp, ?_⟩
    rw [List.flatMap_cons, hchar, ← hds, List.append_assoc]
    rfl
  | case7 offset done b bs p hb value later hlater =>
    rename_i ih
    have hbegins :
        Held (some { p with value, low := 0x80, high := 0xbf, later }) (read ++ [b]) := by
      intro ws hws
      cases ws with
      | nil => exact hws.elim
      | cons w ws =>
        obtain ⟨hw, hlen, hrest⟩ := hws
        rw [List.append_assoc]
        exact hread (b :: w :: ws)
          ⟨hb, by simp [hlen, hlater], List.forall_mem_cons.2 ⟨hw, hrest⟩⟩
    obtain ⟨ds, hds, hread⟩ := ih hbegins h
    exact ⟨ds, hds, by rw [← hread, List.append_assoc]; rfl⟩
  | case8 => cases h

theorem decodeFrom_fits {p : Pending} {ws : List UInt8} (h : p.Fits ws) (offset : Nat)
    (done : List Char) (bytes : List UInt8) :
    ∃ offset', decodeFrom offset (some p) done (ws ++ bytes) =
      decodeFrom offset' none (Char.ofNat (join p.value ws) :: done) bytes := by
  induction ws generalizing p offset with
  | nil => exact h.elim
  | cons w ws ih =>
    obtain ⟨hw, hlen, hws⟩ := h
    cases ws with
    | nil =>
      refine ⟨offset + 1, ?_⟩
      have hlater : p.later = 0 := hlen.symm
      rw [List.singleton_append, decodeFrom, if_pos hw]
      simp only [hlater]
      rfl
    | cons x ws =>
      have hlater : p.later = ws.length + 1 := hlen.symm
      rw [List.cons_append, decodeFrom, if_pos hw]
      simp only [hlater]
      rw [List.forall_mem_cons] at hws
      exact ih ⟨hws.1, rfl, hws.2⟩ (offset + 1)

/-- A character of several bytes is written as a first byte and bytes that fit behind it. -/
theorem exists_lead {c : Char} (h : 0x80 ≤ c.toNat) :
    ∃ b ws, String.utf8EncodeChar c = b :: ws ∧
      ∀ offset, ∃ p, lead? b offset = some p ∧ p.Fits ws ∧ Char.ofNat (join p.value ws) = c := by
  have hvalid : c.toNat < 0xd800 ∨ 0xdfff < c.toNat ∧ c.toNat < 0x110000 := c.valid
  have hc : Char.ofNat c.toNat = c := Char.ofNat_toNat c
  generalize c.toNat = n at h hvalid hc
  subst hc
  have hmod (m : Nat) : m % 64 < 64 := Nat.mod_lt m (by decide)
  by_cases htwo : n < 0x800
  · refine ⟨_, _, encodeChar_two h htwo, fun offset =>
      ⟨_, lead?_two (by omega) (by omega) offset, ⟨continuation_any (hmod n), rfl, by simp⟩, ?_⟩⟩
    rw [join_continuation (hmod n), join, List.foldl_nil, Nat.div_add_mod']
  · by_cases hthree : n < 0x10000
    · refine ⟨_, _, encodeChar_three (by omega) hthree (by omega), fun offset =>
        ⟨_, lead?_three (by omega) offset, ⟨continuation_bounds (hmod _) ?_ ?_, rfl, ?_⟩, ?_⟩⟩
      · dsimp only
        split <;> simp only [UInt8.reduceToNat] <;> omega
      · dsimp only
        split <;> simp only [UInt8.reduceToNat] <;> omega
      · exact List.forall_mem_singleton.2 (continuation_any (hmod n))
      · rw [join_continuation (hmod _), join_continuation (hmod _), join, List.foldl_nil]
        dsimp only
        congr 1
        omega
    · refine ⟨_, _, encodeChar_four (by omega) (by omega), fun offset =>
        ⟨_, lead?_four (by omega) offset, ⟨continuation_bounds (hmod _) ?_ ?_, rfl, ?_⟩, ?_⟩⟩
      · dsimp only
        split <;> simp only [UInt8.reduceToNat] <;> omega
      · dsimp only
        split <;> simp only [UInt8.reduceToNat] <;> omega
      · exact List.forall_mem_cons.2 ⟨continuation_any (hmod _),
          List.forall_mem_singleton.2 (continuation_any (hmod n))⟩
      · rw [join_continuation (hmod _), join_continuation (hmod _), join_continuation (hmod _),
          join, List.foldl_nil]
        dsimp only
        congr 1
        omega

theorem decodeFrom_char (c : Char) (offset : Nat) (done : List Char) (bytes : List UInt8) :
    ∃ offset', decodeFrom offset none done (String.utf8EncodeChar c ++ bytes) =
      decodeFrom offset' none (c :: done) bytes := by
  by_cases hone : c.toNat < 0x80
  · have hc := encodeChar_one hone
    rw [Char.ofNat_toNat] at hc
    have hb : (UInt8.ofNat c.toNat).toNat = c.toNat := by
      rw [UInt8.toNat_ofNat', Nat.mod_eq_of_lt (by omega)]
    have hlt : UInt8.ofNat c.toNat < 0x80 := by
      rw [UInt8.lt_iff_toNat_lt, hb]
      exact hone
    refine ⟨offset + 1, ?_⟩
    rw [hc, List.singleton_append, decodeFrom, if_pos hlt, hb, Char.ofNat_toNat]
  · obtain ⟨b, ws, hc, hlead⟩ := exists_lead (Nat.le_of_not_lt hone)
    obtain ⟨p, hp, hfits, hjoin⟩ := hlead offset
    obtain ⟨offset', hread⟩ := decodeFrom_fits hfits (offset + 1) done bytes
    refine ⟨offset', ?_⟩
    rw [hc, List.cons_append, decodeFrom, if_neg (not_lt_of_lead hp)]
    simp only [hp]
    rw [hread, hjoin]

theorem decodeFrom_encode (cs : List Char) (offset : Nat) (done : List Char) :
    decodeFrom offset none done (cs.flatMap String.utf8EncodeChar) = .ok (done.reverse ++ cs) := by
  induction cs generalizing offset done with
  | nil => simp [decodeFrom]
  | cons c cs ih =>
    obtain ⟨offset', hc⟩ := decodeFrom_char c offset done (cs.flatMap String.utf8EncodeChar)
    rw [List.flatMap_cons, hc, ih]
    simp

theorem decode_encode (s : String) : decode (encode s) = .ok s := by
  simp [decode, encode, decodeFrom_encode, Functor.map, Except.map]

theorem encode_inj {s s' : String} : encode s = encode s' ↔ s = s' := by
  constructor
  · intro h
    have hd := decode_encode s
    rw [h, decode_encode] at hd
    exact (Except.ok.inj hd).symm
  · exact congrArg encode

/-- Bytes are read as a text exactly if they are the bytes that it is written in. -/
theorem decode_eq_ok_iff {bytes : List UInt8} {s : String} :
    decode bytes = .ok s ↔ bytes = encode s := by
  constructor
  · intro h
    cases hd : decodeFrom 0 none [] bytes with
    | error fault =>
      rw [decode, hd] at h
      cases h
    | ok cs =>
      rw [decode, hd] at h
      cases h
      have hheld : Held none [] := rfl
      obtain ⟨ds, rfl, hbytes⟩ := of_decodeFrom hheld hd
      simpa [encode] using hbytes
  · rintro rfl
    exact decode_encode s

end LetFun.Text.Utf8
