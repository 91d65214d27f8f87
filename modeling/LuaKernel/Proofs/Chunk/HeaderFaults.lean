import LuaKernel.Proofs.Chunk.Recognition
import LuaKernel.Proofs.Chunk.Relations
import LuaKernel.Proofs.Chunk.Writing

/-!
# Where a header is wrong

A header that is not the one that is written is refused at its first wrong byte, by the name of the part
that the byte belongs to. `DiffersFirst s t k`: `s` and `t` agree before the place `k`, and have different
bytes there.

* `run_readHeader_of_differsFirst`: reading parts ends at the part with the first wrong byte, by induction
  on the parts. `span_of_mem`: where each part of the header lies.
* `Blameless r`: the reader `r` never names a part of the header. It holds of each step that functions are
  read with (`functionRelation_blameless`), so of all that is read after the header.
* `checkHeader_eq`: to compare the parts as the values they hold is to compare their bytes.
* `decode_headerMismatch`: the verdicts of the loader on a header.
-/

namespace LuaKernel.Chunk

/-! ## The first difference -/

/-- The strings agree before the place `k`, where both have a byte and not the same. -/
def DiffersFirst (s t : Bytes) (k : Nat) : Prop :=
  s.take k = t.take k ∧ ∃ b c, s[k]? = some b ∧ t[k]? = some c ∧ b ≠ c

namespace DiffersFirst

variable {s t u : Bytes} {k k' : Nat}

theorem lt_length (h : DiffersFirst s t k) : k < t.length := by
  obtain ⟨-, b, c, -, ht, -⟩ := h
  exact (List.getElem?_eq_some_iff.1 ht).1

theorem getElem?_eq (h : DiffersFirst s t k) {j : Nat} (hj : j < k) : s[j]? = t[j]? := by
  rw [← List.getElem?_take_of_lt hj, h.1, List.getElem?_take_of_lt hj]

/-- There is one first difference at most. -/
theorem unique (h : DiffersFirst s t k) (h' : DiffersFirst s t k') : k = k' := by
  have hnot {j j' : Nat} (h : DiffersFirst s t j) (h' : DiffersFirst s t j') : ¬j < j' := by
    intro hlt
    obtain ⟨-, b, c, hs, ht, hne⟩ := h
    have heq := h'.getElem?_eq hlt
    rw [hs, ht] at heq
    exact hne (Option.some.inj heq)
  have hle := hnot h h'
  have hge := hnot h' h
  omega

theorem take_ne (h : DiffersFirst s t k) : s.take t.length ≠ t := by
  intro heq
  obtain ⟨-, b, c, hs, ht, hne⟩ := h
  have hk := (List.getElem?_eq_some_iff.1 ht).1
  rw [← heq, List.getElem?_take_of_lt hk, hs] at ht
  exact hne (Option.some.inj ht)

/-- A difference in the front of `t`. -/
theorem front (h : DiffersFirst s (t ++ u) k) (hk : k < t.length) : DiffersFirst s t k := by
  obtain ⟨htake, b, c, hs, ht, hne⟩ := h
  rw [List.take_append_of_le_length (Nat.le_of_lt hk)] at htake
  rw [List.getElem?_append_left hk] at ht
  exact ⟨htake, b, c, hs, ht, hne⟩

/-- A difference behind the front of `t`, which `s` then begins with. -/
theorem back (h : DiffersFirst s (t ++ u) k) (hk : t.length ≤ k) :
    s.take t.length = t ∧ DiffersFirst (s.drop t.length) u (k - t.length) := by
  obtain ⟨htake, b, c, hs, ht, hne⟩ := h
  obtain ⟨j, rfl⟩ := Nat.exists_eq_add_of_le hk
  rw [Nat.add_sub_cancel_left]
  have hfront := congrArg (List.take t.length) htake
  have hback := congrArg (List.drop t.length) htake
  simp only [List.take_take, Nat.min_eq_left hk, List.take_left] at hfront
  simp only [List.drop_take, Nat.add_sub_cancel_left, List.drop_left] at hback
  refine ⟨hfront, hback, b, c, ?_, ?_, hne⟩
  · rw [List.getElem?_drop, hs]
  · rwa [List.getElem?_append_right (Nat.le_add_right ..), Nat.add_sub_cancel_left] at ht

end DiffersFirst

theorem exists_differsFirst {s t : Bytes} (hlen : t.length ≤ s.length) (h : s.take t.length ≠ t) :
    ∃ k, DiffersFirst s t k := by
  induction t generalizing s with
  | nil => exact absurd (by simp) h
  | cons c t ih =>
    cases s with
    | nil => simp at hlen
    | cons b s =>
      by_cases hbc : b = c
      · subst hbc
        obtain ⟨k, htake, hdiffers⟩ := ih (s := s) (by simpa using hlen) (by simpa using h)
        exact ⟨k + 1, by simpa using htake, by simpa using hdiffers⟩
      · exact ⟨0, by simp, b, c, by simp, by simp, hbc⟩

/-! ## Parts of a header -/

/-- The parts of a header that begins at `o`: where each of them begins, and where it has ended. -/
def spans : (o : Nat) → List (HeaderField × Bytes) → List (HeaderField × Nat × Nat)
  | _, [] => []
  | o, (field, expected) :: fields =>
    (field, o, o + expected.length) :: spans (o + expected.length) fields

/-- **Reading ends at the part with the first wrong byte.** The parts before it are as they have to be. -/
theorem run_readHeader_of_differsFirst {fields : List (HeaderField × Bytes)} {s : Bytes} {k : Nat}
    (hlen : (fields.flatMap Prod.snd).length ≤ s.length)
    (h : DiffersFirst s (fields.flatMap Prod.snd) k) (o : Nat) :
    ∃ field start stop, (field, start, stop) ∈ spans o fields ∧ start ≤ o + k ∧ o + k < stop ∧
      (readHeader fields : Reader Unit).run ⟨o, s⟩ = .error (.headerMismatch field) := by
  induction fields generalizing s k o with
  | nil => exact absurd h.lt_length (Nat.not_lt_zero k)
  | cons part fields ih =>
    obtain ⟨field, expected⟩ := part
    have hsplit : ((field, expected) :: fields).flatMap Prod.snd = expected ++ fields.flatMap Prod.snd := rfl
    rw [hsplit] at h hlen
    rw [List.length_append] at hlen
    have htake : (Input.take expected.length : Reader Bytes).run ⟨o, s⟩ =
        .ok (s.take expected.length, ⟨o + expected.length, s.drop expected.length⟩) := by
      have hle : expected.length ≤ s.length := by omega
      rw [Reader.run_take, if_pos (List.length_take_of_le hle)]
    rw [readHeader, Reader.run_bind_of_ok htake]
    by_cases hk : k < expected.length
    · rw [if_neg (h.front hk).take_ne]
      exact ⟨field, o, o + expected.length, .head _, by omega, by omega, rfl⟩
    · obtain ⟨hfront, hback⟩ := h.back (Nat.le_of_not_lt hk)
      rw [if_pos hfront]
      obtain ⟨field', start, stop, hmem, hstart, hstop, hrun⟩ :=
        ih (by rw [List.length_drop]; omega) hback (o + expected.length)
      exact ⟨field', start, stop, .tail _ hmem, by omega, by omega, hrun⟩

namespace HeaderField

/-- The first byte of a part in the header, and the last one. -/
def span : HeaderField → Nat × Nat
  | .signature => (0, 3)
  | .version => (4, 4)
  | .format => (5, 5)
  | .guardBytes => (6, 11)
  | .intSize => (12, 12)
  | .sizeSize => (13, 13)
  | .instructionSize => (14, 14)
  | .integerSize => (15, 15)
  | .numberSize => (16, 16)
  | .sampleInteger => (17, 24)
  | .sampleFloat => (25, 32)

/-- The part has the byte `k` of the header. -/
def Holds (field : HeaderField) (k : Nat) : Prop := field.span.1 ≤ k ∧ k ≤ field.span.2

instance (field : HeaderField) (k : Nat) : Decidable (field.Holds k) :=
  inferInstanceAs (Decidable (_ ∧ _))

theorem disjoint (f g : HeaderField) : f = g ∨ f.span.2 < g.span.1 ∨ g.span.2 < f.span.1 := by
  cases f <;> cases g <;> decide

/-- A byte is in one part only. -/
theorem Holds.unique {f g : HeaderField} {k : Nat} (hf : f.Holds k) (hg : g.Holds k) : f = g := by
  obtain ⟨hf1, hf2⟩ := hf
  obtain ⟨hg1, hg2⟩ := hg
  rcases disjoint f g with heq | hlt | hlt
  · exact heq
  · omega
  · omega

end HeaderField

/-- The parts of the header lie where they are said to. -/
theorem span_of_mem {field : HeaderField} {start stop : Nat}
    (h : (field, start, stop) ∈ spans 0 headerFields) : field.span = (start, stop - 1) := by
  have hall : (spans 0 headerFields).all fun x => x.1.span = (x.2.1, x.2.2 - 1) := rfl
  simpa using List.all_eq_true.1 hall _ h

/-- **A wrong header is refused by the part with its first wrong byte.** -/
theorem run_readHeader_headerFields {s : Bytes} {k : Nat} (hlen : headerSize ≤ s.length)
    (h : DiffersFirst s header k) :
    ∃ field, HeaderField.Holds field k ∧
      (readHeader headerFields : Reader Unit).run ⟨0, s⟩ = .error (.headerMismatch field) := by
  rw [← length_header] at hlen
  obtain ⟨field, start, stop, hmem, hstart, hstop, hrun⟩ := run_readHeader_of_differsFirst hlen h 0
  have hspan := span_of_mem hmem
  refine ⟨field, ?_, hrun⟩
  rw [HeaderField.Holds, hspan]
  exact ⟨by omega, Nat.le_sub_one_of_lt (by omega)⟩

/-! ## After the header -/

namespace Reader

/-- The reader does not name a part of the header, wherever it starts. -/
def Blameless {α : Type} (r : Reader α) : Prop := ∀ c field, r.run c ≠ .error (.headerMismatch field)

namespace Blameless

variable {α β : Type} {r : Reader α}

theorem pure (a : α) : Blameless (Pure.pure a : Reader α) := nofun

theorem throw {e : DecodeError} (he : ∀ field, e ≠ .headerMismatch field) :
    Blameless (throw e : Reader α) := by
  intro c field h
  exact he field (Except.error.inj h)

theorem truncated (n : Nat) : Blameless (Input.truncated n : Reader α) := nofun

theorem bind {f : α → Reader β} (h : Blameless r) (hf : ∀ a, Blameless (f a)) : Blameless (r >>= f) := by
  intro c field
  cases hr : r.run c with
  | error e =>
    rw [run_bind_of_error hr]
    intro he
    cases he
    exact h c field hr
  | ok x =>
    rw [run_bind_of_ok hr]
    exact hf x.1 x.2 field

end Blameless

theorem blameless_take (n : Nat) : Blameless (Input.take n) := by
  intro c field h
  rw [run_take] at h
  split at h <;> cases h

theorem functionRelation_blameless : FunctionRelation (m := Reader) (n := Reader) fun _ r _ => Blameless r where
  pure := .pure
  bind := .bind
  take := blameless_take
  truncated := .truncated _
  sub _ := .pure _
  unknownTag _ := .throw nofun
  reserve _ _ := .pure ()
  nestedTooDeep _ := .throw nofun

end Reader

open Reader

/-! ## Parts as values -/

/-- Goes on where a part of the header is as it has to be. -/
def ensure (p : Prop) [Decidable p] (field : HeaderField) : Reader Unit :=
  if p then return else throw (.headerMismatch field)

/-- Reads the header as the values it holds: the sample integer is compared as an integer, and the sample
float by its bits. -/
def checkHeader : Reader Unit := do
  ensure ((← Input.take 4) = signature) .signature
  ensure ((← Input.byte) = version) .version
  ensure ((← Input.byte) = format) .format
  ensure ((← Input.take 6) = guardBytes) .guardBytes
  ensure ((← Input.byte) = intSize) .intSize
  ensure ((← Input.byte) = sizeSize) .sizeSize
  ensure ((← Input.byte) = instructionSize) .instructionSize
  ensure ((← Input.byte) = integerSize) .integerSize
  ensure ((← Input.byte) = numberSize) .numberSize
  ensure ((← Input.word64).toInt64 = sampleInteger) .sampleInteger
  ensure ((← Input.word64) = sampleFloat.bits) .sampleFloat

theorem ensure_bind (p : Prop) [Decidable p] (field : HeaderField) (next : Reader Unit) :
    (ensure p field >>= fun _ => next) = if p then next else throw (.headerMismatch field) := by
  unfold ensure
  split <;> rfl

section
variable {α : Type} {field : HeaderField} {expected : Bytes} {fields : List (HeaderField × Bytes)}
  {next : Reader Unit}

/-- A test of what was read off a part, if the right bytes pass it and no others do. -/
theorem check_part {n : Nat} {g : Bytes → α} {p : α → Prop} [DecidablePred p] (hn : expected.length = n)
    (h : ∀ s, s.length = n → (p (g s) ↔ s = expected)) (hnext : next = readHeader fields) :
    ((Input.take n >>= fun s => pure (g s)) >>= fun a => ensure (p a) field >>= fun _ => next) =
      readHeader ((field, expected) :: fields) := by
  subst hn hnext
  apply StateT.ext
  intro c
  simp only [bind_assoc, pure_bind, ensure_bind, readHeader]
  by_cases hc : (c.rest.take expected.length).length = expected.length
  · have htake := Reader.run_take expected.length c
    rw [if_pos hc] at htake
    rw [run_bind_of_ok htake, run_bind_of_ok htake]
    simp only [h _ hc]
  · have htake := Reader.run_take expected.length c
    rw [if_neg hc] at htake
    rw [run_bind_of_error htake, run_bind_of_error htake]

theorem check_bytes {n : Nat} (hn : expected.length = n) (hnext : next = readHeader fields) :
    (Input.take n >>= fun s => ensure (s = expected) field >>= fun _ => next) =
      readHeader ((field, expected) :: fields) := by
  have hpart : ((Input.take n >>= fun s => pure (id s)) >>= fun s => ensure (s = expected) field >>= fun _ =>
      next) = readHeader ((field, expected) :: fields) := check_part hn (fun s _ => Iff.rfl) hnext
  simpa using hpart

theorem check_byte {b : UInt8} (hnext : next = readHeader fields) :
    (Input.byte >>= fun x => ensure (x = b) field >>= fun _ => next) =
      readHeader ((field, [b]) :: fields) := by
  refine check_part rfl (fun s hs => ?_) hnext
  obtain ⟨x, rfl⟩ := List.length_eq_one_iff.1 hs
  simp

theorem check_word64 {p : UInt64 → Prop} [DecidablePred p] {w : UInt64} (h : ∀ n, p n ↔ n = w)
    (hnext : next = readHeader fields) :
    (Input.word64 >>= fun n => ensure (p n) field >>= fun _ => next) =
      readHeader ((field, word64Bytes w) :: fields) := by
  refine check_part (Bytes.length_leBytes ..) (fun s hs => ?_) hnext
  rw [h]
  constructor
  · rintro rfl
    have hlt : Bytes.ofLeBytes s < UInt64.size := by
      have := Bytes.ofLeBytes_lt s
      rwa [hs] at this
    rw [word64Bytes, UInt64.toNat_ofNat_of_lt' hlt, ← hs, Bytes.leBytes_ofLeBytes]
  · rintro rfl
    rw [word64Bytes, Bytes.ofLeBytes_leBytes w.toNat_lt, UInt64.ofNat_toNat]

end

/-- **To compare the values is to compare the bytes.** -/
theorem checkHeader_eq : checkHeader = readHeader headerFields := by
  have hinteger (n : UInt64) : n.toInt64 = sampleInteger ↔ n = sampleInteger.toUInt64 := by
    constructor
    · intro h
      rw [← h, UInt64.toUInt64_toInt64]
    · intro h
      rw [h, Int64.toInt64_toUInt64]
  have hlast : (Input.word64 >>= fun n => ensure (n = sampleFloat.bits) .sampleFloat) =
      readHeader [(.sampleFloat, word64Bytes sampleFloat.bits)] := by
    rw [← check_word64 (fun _ => Iff.rfl) (rfl : pure () = readHeader [])]
    simp
  exact check_bytes rfl <| check_byte <| check_byte <| check_bytes rfl <| check_byte <| check_byte <|
    check_byte <| check_byte <| check_byte <| check_word64 hinteger hlast

/-! ## Verdicts -/

theorem decode_of_le {d : Bytes} (h : headerSize ≤ d.length) :
    decode d = ((readChunk : Reader Prototype).run ⟨0, d⟩).map Prod.fst := by
  rw [decode, if_neg (Nat.not_lt.2 h)]

theorem decode_of_differsFirst {d : Bytes} {k : Nat} (hlen : headerSize ≤ d.length)
    (h : DiffersFirst d header k) :
    ∃ field, HeaderField.Holds field k ∧ decode d = .error (.headerMismatch field) := by
  obtain ⟨field, hholds, hrun⟩ := run_readHeader_headerFields hlen h
  refine ⟨field, hholds, ?_⟩
  rw [decode_of_le hlen, readChunk, run_bind_of_error hrun]
  rfl

/-- Behind the right header no part of it is named. -/
theorem decode_header_append (t : Bytes) (field : HeaderField) :
    decode (header ++ t) ≠ .error (.headerMismatch field) := by
  have hlen : headerSize ≤ (header ++ t).length := by
    rw [List.length_append, length_header]
    exact Nat.le_add_right ..
  have hrun := (accepts_readHeader headerFields).complete (a := ()) (u := header) rfl 0 t
  have hrest : Blameless (Input.byte >>= fun _ => readFunction (nestingLimit + 1) none) :=
    functionRelation_blameless.byte.bind fun _ => functionRelation_blameless.readFunction _ _
  rw [decode_of_le hlen, readChunk, run_bind_of_ok hrun]
  generalize (⟨0 + header.length, t⟩ : Cursor) = c
  have hc := hrest c field
  intro h
  cases hr : (Input.byte >>= fun _ => readFunction (nestingLimit + 1) none : Reader Prototype).run c with
  | error e =>
    rw [hr] at h hc
    cases h
    exact hc rfl
  | ok x =>
    rw [hr] at h
    cases h

/-- A chunk that is written starts with the header. -/
theorem take_encode {p : Prototype} {strip : Bool} {c : Bytes} (h : encode p strip = .ok c) :
    c.take headerSize = header := by
  obtain ⟨-, main, -, rfl⟩ := encode_eq_ok.1 h
  rw [List.append_assoc, ← length_header, List.take_left]

/-- **The verdicts of the loader on a header.** A wrong one is refused by the part with its first wrong byte, and
only one that is too short is refused before its bytes are looked at. -/
theorem decode_headerMismatch (d : Bytes) :
    (d.length < 33 → decode d = .error (.truncated 0 33 d.length)) ∧
    (33 ≤ d.length →
      ((∃ field, decode d = .error (.headerMismatch field)) ↔ d.take 33 ≠ header) ∧
      ∀ field, decode d = .error (.headerMismatch field) ↔
        ∃ k, DiffersFirst d header k ∧ field.Holds k) ∧
    (∀ p strip c, encode p strip = .ok c → c.take 33 = header) ∧
    readHeader headerFields = checkHeader := by
  refine ⟨fun hshort => if_pos hshort, fun hlen => ?_, fun p strip c => take_encode, checkHeader_eq.symm⟩
  by_cases hheader : d.take 33 = header
  · -- Nothing is wrong, and nothing differs.
    have hnone (field : HeaderField) : decode d ≠ .error (.headerMismatch field) := by
      rw [← List.take_append_drop 33 d, hheader]
      exact decode_header_append _ field
    have hsame (k : Nat) : ¬DiffersFirst d header k := fun h => h.take_ne hheader
    exact ⟨⟨fun ⟨field, h⟩ => absurd h (hnone field), fun h => absurd hheader h⟩,
      fun field => ⟨fun h => absurd h (hnone field), fun ⟨k, h, _⟩ => absurd h (hsame k)⟩⟩
  · obtain ⟨k, hk⟩ := exists_differsFirst (t := header) hlen hheader
    obtain ⟨field, hholds, hdecode⟩ := decode_of_differsFirst hlen hk
    refine ⟨⟨fun _ => hheader, fun _ => ⟨field, hdecode⟩⟩, fun field' => ⟨fun h => ?_, fun h => ?_⟩⟩
    · rw [hdecode] at h
      cases h
      exact ⟨k, hk, hholds⟩
    · obtain ⟨k', hk', hholds'⟩ := h
      obtain rfl := hk.unique hk'
      rw [hdecode, hholds.unique hholds']

/-- Thirty-two bytes of the header; one with two wrong parts, of which the first has its last byte wrong;
and the sample float with a sign. -/
theorem decode_headerMismatch_signed :
    decode (header.take 32) = .error (.truncated 0 33 32) ∧
      decode ((header.set 11 0).set 12 8) = .error (.headerMismatch .guardBytes) ∧
      decode (header.set 32 0xc0) = .error (.headerMismatch .sampleFloat) := by
  obtain ⟨hshort, -⟩ := decode_headerMismatch (header.take 32)
  obtain ⟨-, hguard, -⟩ := decode_headerMismatch ((header.set 11 0).set 12 8)
  obtain ⟨-, hfloat, -⟩ := decode_headerMismatch (header.set 32 0xc0)
  refine ⟨hshort (by decide), ?_, ?_⟩
  · exact ((hguard (by decide)).2 .guardBytes).2 ⟨11, ⟨rfl, 0, 0x0a, rfl, rfl, by decide⟩, by decide⟩
  · exact ((hfloat (by decide)).2 .sampleFloat).2 ⟨32, ⟨rfl, 0xc0, 0x40, rfl, rfl, by decide⟩, by decide⟩

end LuaKernel.Chunk
