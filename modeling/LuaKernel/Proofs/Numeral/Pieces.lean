import Mathlib
import LuaKernel.Proofs.Numeral.Grammar

/-!
# How the pieces of a numeral are read

Each reader of a piece against the grammar of the piece.

* `surrounded_trim`, `Surrounded.trim_eq`: trimming takes the blanks around a numeral away, and no more.
* `exists_sign`, `splitSign_append`: a sign is split off from what does not start with another one.
* `hexBody?_eq_some_iff`, `hexBody?_of_subset`, `signedDecimal?_eq_some_iff`: the mark, and an integer with
  a sign.
* `hexValue?_eq_some_iff`, `digitValues?_hex_iff`: hexadecimal digits.
-/

namespace LuaKernel.Numeral

/-! ## Blanks -/

theorem isBlank_iff {b : UInt8} : Bytes.isBlank b ↔ b ∈ Bytes.ascii " \t\n\x0c\r" := by
  have hblanks : Bytes.ascii " \t\n\x0c\r" = [0x20, 0x09, 0x0a, 0x0c, 0x0d] := rfl
  simp [Bytes.isBlank, hblanks, or_assoc]

theorem blank_takeWhile (s : Bytes) : Blank (s.takeWhile Bytes.isBlank) :=
  fun _ hb => isBlank_iff.1 (List.mem_takeWhile_imp hb)

theorem surrounded_trim (s : Bytes) : Surrounded s.trim s := by
  have hfront := List.takeWhile_append_dropWhile (p := Bytes.isBlank) (l := s)
  have hback := List.takeWhile_append_dropWhile (p := Bytes.isBlank)
    (l := (s.dropWhile Bytes.isBlank).reverse)
  refine ⟨s.takeWhile Bytes.isBlank, ((s.dropWhile Bytes.isBlank).reverse.takeWhile Bytes.isBlank).reverse,
    blank_takeWhile s, fun b hb => blank_takeWhile _ (List.mem_reverse.1 hb), ?_⟩
  rw [Bytes.trim, List.append_assoc, ← List.reverse_append, hback, List.reverse_reverse, hfront]

theorem dropWhile_blank_append {u t : Bytes} (hu : Blank u)
    (ht : ∀ b, t.head? = some b → Bytes.isBlank b = false) : (u ++ t).dropWhile Bytes.isBlank = t := by
  rw [List.dropWhile_append_of_pos fun b hb => isBlank_iff.2 (hu hb)]
  cases t with
  | nil => rfl
  | cons b t => rw [List.dropWhile_cons_of_neg (by simp [ht b rfl])]

/-- **Trimming** leaves what has no blank in it. -/
theorem Surrounded.trim_eq {t s : Bytes} (h : Surrounded t s) (ht : ∀ b ∈ t, Bytes.isBlank b = false) :
    s.trim = t := by
  obtain ⟨l, r, hl, hr, rfl⟩ := h
  have hr' : Blank r.reverse := fun b hb => hr (List.mem_reverse.1 hb)
  unfold Bytes.trim
  cases t with
  | nil =>
    have hlr : Blank (l ++ r) := List.append_subset.2 ⟨hl, hr⟩
    have hall := dropWhile_blank_append (t := []) hlr (by simp)
    rw [List.append_nil] at hall
    rw [List.append_nil, hall]
    rfl
  | cons b t =>
    rw [List.append_assoc, dropWhile_blank_append hl (by simpa using ht b), List.reverse_append,
      dropWhile_blank_append hr', List.reverse_reverse]
    intro c hc
    exact ht c (List.mem_reverse.1 (List.mem_of_head? hc))

/-! ## Sign and mark -/

theorem exists_sign (s : Bytes) : ∃ negative sign body,
    splitSign s = (negative, body) ∧ SignForm negative sign ∧ s = sign ++ body := by
  cases s with
  | nil => exact ⟨_, _, [], rfl, .absent, rfl⟩
  | cons b s =>
    simp only [splitSign]
    split_ifs with hminus hplus
    · subst hminus
      exact ⟨_, _, s, rfl, .minus, rfl⟩
    · subst hplus
      exact ⟨_, _, s, rfl, .plus, rfl⟩
    · exact ⟨_, _, b :: s, rfl, .absent, rfl⟩

theorem splitSign_append {negative : Bool} {sign u : Bytes} (h : SignForm negative sign)
    (hu : ∀ b, u.head? = some b → b ∉ Bytes.ascii "+-") : splitSign (sign ++ u) = (negative, u) := by
  cases h with
  | plus => rfl
  | minus => rfl
  | absent =>
    cases u with
    | nil => rfl
    | cons b u =>
      have hb : b ∉ ['+'.toUInt8, '-'.toUInt8] := hu b rfl
      simp only [List.mem_cons, List.not_mem_nil, or_false, not_or] at hb
      simp [splitSign, hb]

theorem hexBody?_eq_some_iff {u body : Bytes} :
    hexBody? u = some body ↔ ∃ mark, IsHexMark mark ∧ u = mark ++ body := by
  constructor
  · intro h
    unfold hexBody? at h
    split at h
    · rename_i b c rest
      split at h
      · rename_i hbc
        cases h
        obtain ⟨rfl, rfl | rfl⟩ := hbc
        · exact ⟨_, .inl rfl, rfl⟩
        · exact ⟨_, .inr rfl, rfl⟩
      · cases h
    · cases h
  · rintro ⟨mark, rfl | rfl, rfl⟩ <;> rfl

/-- Where no `x` can stand there is no mark. -/
theorem hexBody?_of_subset {u allowed : Bytes} (hu : u ⊆ allowed)
    (hallowed : ∀ b ∈ allowed, b ∉ Bytes.ascii "xX") : hexBody? u = none := by
  rw [Option.eq_none_iff_forall_ne_some]
  intro body h
  obtain ⟨mark, hmark, rfl⟩ := hexBody?_eq_some_iff.1 h
  obtain ⟨c, hc, hx⟩ : ∃ c ∈ mark, c ∈ Bytes.ascii "xX" := by
    rcases hmark with rfl | rfl
    · exact ⟨'x'.toUInt8, by simp [Bytes.ascii], by simp [Bytes.ascii]⟩
    · exact ⟨'X'.toUInt8, by simp [Bytes.ascii], by simp [Bytes.ascii]⟩
  exact hallowed c (hu (List.mem_append_left _ hc)) hx

theorem splitSign_mark {negative : Bool} {sign mark : Bytes} (h : SignForm negative sign)
    (hmark : IsHexMark mark) (u : Bytes) : splitSign (sign ++ (mark ++ u)) = (negative, mark ++ u) := by
  refine splitSign_append h fun b hb => ?_
  have hzero : b ∈ Bytes.ascii "0" := by rcases hmark with rfl | rfl <;> cases hb <;> exact List.mem_cons_self
  exact disjoint_of_any rfl b hzero

/-- A sign is no digit, so digits are split from the sign before them. -/
theorem splitSign_spell {negative : Bool} {sign : Bytes} (h : SignForm negative sign)
    (ds : List (Fin 10)) : splitSign (sign ++ spell ds) = (negative, spell ds) := by
  have hdigits : ∀ b ∈ decimalDigits, b ∉ Bytes.ascii "+-" := disjoint_of_any rfl
  exact splitSign_append h fun b hb => hdigits b (spell_subset ds (List.mem_of_head? hb))

/-- **An integer with a sign** is read as the grammar says. -/
theorem signedDecimal?_eq_some_iff {u : Bytes} {e : ℤ} : signedDecimal? u = some e ↔ SignedForm e u := by
  unfold signedDecimal?
  constructor
  · intro h
    obtain ⟨negative, sign, body, hsplit, hsign, rfl⟩ := exists_sign u
    rw [hsplit] at h
    obtain ⟨n, hn, rfl⟩ := Option.map_eq_some_iff.1 h
    obtain ⟨ds, hds, rfl, rfl⟩ := decimal?_eq_some_iff.1 hn
    exact ⟨negative, sign, ds, hsign, hds, rfl, rfl⟩
  · rintro ⟨negative, sign, ds, hsign, hds, rfl, rfl⟩
    simp [splitSign_spell hsign, decimal?_eq_some_iff.2 ⟨ds, hds, rfl, rfl⟩]

/-! ## Hexadecimal digits -/

theorem mem_hexDigits_of_hexValue? {b : UInt8} {n : ℕ} (h : hexValue? b = some n) : b ∈ hexDigits := by
  have hall : (List.range 256).all fun k =>
      (hexValue? (UInt8.ofNat k)).isNone || hexDigits.contains (UInt8.ofNat k) := by decide +kernel
  have hb := List.all_eq_true.1 hall b.toNat (List.mem_range.2 b.toNat_lt)
  simpa [h] using hb

theorem hexValue?_of_mem {b : UInt8} {d : Fin 16} (h : b ∈ hexBytes d) : hexValue? b = some d.val := by
  have hall : ∀ d : Fin 16, (hexBytes d).all fun b => hexValue? b = some d.val := by decide +kernel
  simpa using List.all_eq_true.1 (hall d) b h

theorem hexValue?_eq_some_iff {b : UInt8} {n : ℕ} :
    hexValue? b = some n ↔ ∃ d : Fin 16, b ∈ hexBytes d ∧ n = d := by
  constructor
  · intro h
    obtain ⟨d, hd⟩ := mem_hexDigits.1 (mem_hexDigits_of_hexValue? h)
    rw [hexValue?_of_mem hd] at h
    exact ⟨d, hd, (Option.some.inj h).symm⟩
  · rintro ⟨d, hd, rfl⟩
    exact hexValue?_of_mem hd

theorem digitValues?_hex_iff {u : Bytes} {ns : List ℕ} :
    digitValues? hexValue? u = some ns ↔ ∃ ds, HexDigitsForm ds u ∧ ns = ds.map Fin.val := by
  unfold digitValues?
  induction u generalizing ns with
  | nil =>
    constructor
    · intro h
      cases h
      exact ⟨[], .nil, rfl⟩
    · rintro ⟨ds, h, rfl⟩
      cases h
      rfl
  | cons b u ih =>
    simp only [List.mapM_cons, Option.pure_def, Option.bind_eq_bind, Option.bind_eq_some_iff,
      Option.some.injEq, hexValue?_eq_some_iff, ih]
    constructor
    · rintro ⟨_, ⟨d, hd, rfl⟩, _, ⟨ds, hds, rfl⟩, rfl⟩
      exact ⟨d :: ds, .cons hd hds, rfl⟩
    · rintro ⟨_, h, rfl⟩
      cases h with
      | cons hd hds => exact ⟨_, ⟨_, hd, rfl⟩, _, ⟨_, hds, rfl⟩, rfl⟩

end LuaKernel.Numeral
