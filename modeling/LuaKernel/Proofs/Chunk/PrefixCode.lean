import LuaKernel.Proofs.Chunk.Relations

/-!
# Chunks are a prefix code

Loading looks at its input from the front and never at its length, but for the header's. So the verdict on
an input, if it is not that the input ended too early, is settled by a part at its front: it is the same
whatever follows that part, and every input cut off inside it ended too early.

* `Reader.Settles r o u out`: from the offset `o`, the bytes `u` and no fewer settle that `r` ends as
  `out`.
* `Reader.Streams r`: every run of `r` ends too early or is settled by a front of its input. It holds of
  each step and is kept by sequences (`functionRelation_streams`), so it holds of loading.
* `decode_prefix_code`: the same for chunks, where the header is settled as a whole.
-/

namespace LuaKernel.Chunk

/-- The input ended too early. -/
def Short {α : Type} (x : Except DecodeError α) : Prop :=
  ∃ offset needed remaining, x = .error (.truncated offset needed remaining)

instance {α : Type} : ∀ x : Except DecodeError α, Decidable (Short x)
  | .error (.truncated offset needed remaining) => .isTrue ⟨offset, needed, remaining, rfl⟩
  | .error (.headerMismatch _) | .error (.unknownTag _) | .error (.nestedTooDeep _) | .ok _ =>
    .isFalse nofun

namespace Reader

variable {α β : Type} {r : Reader α}

/-- The bytes `u` settle that `r` ends as `out`, and no part of them does. -/
structure Settles (r : Reader α) (o : Nat) (u : Bytes) (out : Except DecodeError α) : Prop where
  run : ∀ t, r.run ⟨o, u ++ t⟩ = out.map fun a => (a, ⟨o + u.length, t⟩)
  short : ∀ m < u.length, Short (r.run ⟨o, u.take m⟩)

/-- Every run ends too early or is settled by a front of the input. -/
def Streams (r : Reader α) : Prop :=
  ∀ o s, Short (r.run ⟨o, s⟩) ∨ ∃ u t out, s = u ++ t ∧ Settles r o u out

theorem short_bind {c : Cursor} (h : Short (r.run c)) (f : α → Reader β) : Short ((r >>= f).run c) := by
  obtain ⟨offset, needed, remaining, h⟩ := h
  exact ⟨offset, needed, remaining, run_bind_of_error h f⟩

namespace Streams

theorem pure (a : α) : Streams (Pure.pure a : Reader α) := by
  intro o s
  exact .inr ⟨[], s, .ok a, rfl, fun t => rfl, fun m hm => absurd hm (Nat.not_lt_zero m)⟩

theorem throw (e : DecodeError) : Streams (throw e : Reader α) := by
  intro o s
  exact .inr ⟨[], s, .error e, rfl, fun t => rfl, fun m hm => absurd hm (Nat.not_lt_zero m)⟩

theorem truncated (n : Nat) : Streams (Input.truncated n : Reader α) :=
  fun o s => .inl ⟨o, n, s.length, rfl⟩

end Streams

/-- What settles a sequence is what settles its first part, followed by what settles its second. -/
theorem Settles.bind {o : Nat} {u v : Bytes} {a : α} {f : α → Reader β} {out : Except DecodeError β}
    (hr : Settles r o u (.ok a)) (hf : Settles (f a) (o + u.length) v out) :
    Settles (r >>= f) o (u ++ v) out where
  run t := by
    rw [List.append_assoc, run_bind_of_ok (hr.run (v ++ t)), hf.run t, List.length_append, Nat.add_assoc]
  short m hm := by
    rw [List.length_append] at hm
    by_cases hmu : m < u.length
    · rw [List.take_append_of_le_length (Nat.le_of_lt hmu)]
      exact short_bind (hr.short m hmu) f
    · -- The first part is there as a whole, so the cut is in the second.
      have hcut : (u ++ v).take m = u ++ v.take (m - u.length) := by
        rw [List.take_append, List.take_of_length_le (by omega)]
      rw [hcut, run_bind_of_ok (hr.run _)]
      exact hf.short _ (by omega)

theorem Settles.bind_error {o : Nat} {u : Bytes} {e : DecodeError} (hr : Settles r o u (.error e))
    (f : α → Reader β) : Settles (r >>= f) o u (.error e) where
  run t := run_bind_of_error (hr.run t) f
  short m hm := short_bind (hr.short m hm) f

theorem Streams.bind {f : α → Reader β} (hr : Streams r) (hf : ∀ a, Streams (f a)) :
    Streams (r >>= f) := by
  intro o s
  rcases hr o s with hshort | ⟨u, t, out, rfl, hu⟩
  · exact .inl (short_bind hshort f)
  · cases out with
    | error e => exact .inr ⟨u, t, .error e, rfl, hu.bind_error f⟩
    | ok a =>
      rcases hf a (o + u.length) t with hshort | ⟨v, t, out, rfl, hv⟩
      · left
        rw [run_bind_of_ok (hu.run t)]
        exact hshort
      · exact .inr ⟨u ++ v, t, out, (List.append_assoc ..).symm, hu.bind hv⟩

theorem streams_take (n : Nat) : Streams (Input.take n) := by
  intro o s
  by_cases hn : (s.take n).length = n
  · refine .inr ⟨s.take n, s.drop n, .ok (s.take n), (List.take_append_drop n s).symm, fun t => ?_,
      fun m hm => ?_⟩
    · have htake : (s.take n ++ t).take n = s.take n := List.take_left' hn
      have hdrop : (s.take n ++ t).drop n = t := List.drop_left' hn
      rw [run_take]
      simp only [htake, hdrop, hn, if_true]
      rfl
    · refine ⟨o, n, ((s.take n).take m).length, ?_⟩
      rw [run_take, if_neg]
      simp only [List.length_take] at hm ⊢
      omega
  · left
    exact ⟨o, n, s.length, by rw [run_take, if_neg hn]⟩

theorem functionRelation_streams : FunctionRelation (m := Reader) (n := Reader) fun _ r _ => Streams r where
  pure := .pure
  bind := .bind
  take := streams_take
  truncated := .truncated _
  sub _ := .pure _
  unknownTag _ := .throw _
  reserve _ _ := .pure ()
  nestedTooDeep _ := .throw _

end Reader

open Reader

/-! ## Chunks -/

theorem streams_readChunk : Streams readChunk := functionRelation_streams.readChunk fun _ => .throw _

theorem decode_of_short {d : Bytes} (h : d.length < headerSize) : Short (decode d) :=
  ⟨0, headerSize, d.length, by rw [decode, if_pos h]⟩

/-- An input that is long enough for a header and begins with what settles the loader. -/
theorem decode_of_settles {u t : Bytes} {out : Except DecodeError Prototype}
    (hu : Settles readChunk 0 u out) (hlen : headerSize ≤ (u ++ t).length) : decode (u ++ t) = out := by
  rw [decode, if_neg (Nat.not_lt.2 hlen), hu.run t]
  cases out <;> rfl

/-- **Chunks are a prefix code.** A verdict other than that the input ended too early is settled by the
first `k` bytes for some `k`: every input that begins with them has the same verdict, and every shorter
part of them ended too early. -/
theorem decode_prefix_code {d : Bytes} (h : ¬ Short (decode d)) :
    ∃ k ≤ d.length, (∀ d' : Bytes, d'.take k = d.take k → decode d' = decode d) ∧
      ∀ m < k, Short (decode (d.take m)) := by
  have hsize : headerSize ≤ d.length := Nat.not_lt.1 fun hlt => h (decode_of_short hlt)
  rcases streams_readChunk 0 d with ⟨offset, needed, remaining, hshort⟩ | ⟨u, t, out, rfl, hu⟩
  · refine absurd ⟨offset, needed, remaining, ?_⟩ h
    rw [decode, if_neg (Nat.not_lt.2 hsize), hshort]
    rfl
  have hd := decode_of_settles hu hsize
  have hut : u.length ≤ (u ++ t).length := by
    rw [List.length_append]
    omega
  -- The length check settles nothing on fewer bytes than a header has.
  refine ⟨max headerSize u.length, Nat.max_le.2 ⟨hsize, hut⟩, fun d' hd' => ?_, fun m hm => ?_⟩
  · have hlen : max headerSize u.length ≤ d'.length := by
      have := congrArg List.length hd'
      rw [List.length_take, List.length_take, Nat.min_eq_left (Nat.max_le.2 ⟨hsize, hut⟩)] at this
      omega
    have hfront : d'.take u.length = u := by
      have := congrArg (List.take u.length) hd'
      rwa [List.take_take, List.take_take, Nat.min_eq_left (Nat.le_max_right ..),
        List.take_left] at this
    have hsplit : d' = u ++ d'.drop u.length := by
      conv => lhs; rw [← List.take_append_drop u.length d', hfront]
    rw [hd, hsplit]
    exact decode_of_settles hu (by rw [← hsplit]; omega)
  · by_cases hmh : m < headerSize
    · apply decode_of_short
      rw [List.length_take]
      omega
    · have hmu : m < u.length := by omega
      obtain ⟨offset, needed, remaining, hshort⟩ := hu.short m hmu
      refine ⟨offset, needed, remaining, ?_⟩
      rw [List.take_append_of_le_length (Nat.le_of_lt hmu), decode, if_neg, hshort]
      · rfl
      · rw [List.length_take]
        omega

/-- A chunk refused for the tag of its first constant, with bytes after it. -/
theorem decode_prefix_code_tag :
    let d : Bytes := header ++ [0] ++ [0] ++ List.replicate 15 0 ++ [1, 0, 0, 0, 2] ++ [7, 7, 7]
    decode d = .error (.unknownTag 2) ∧
      ∃ k ≤ d.length, (∀ d' : Bytes, d'.take k = d.take k → decode d' = decode d) ∧
        ∀ m < k, Short (decode (d.take m)) := by
  intro d
  have htag : (match decode d with | .error e => decide (e = .unknownTag 2) | .ok _ => false) = true := by
    decide +kernel
  have hd : decode d = .error (.unknownTag 2) := by
    split at htag
    · rename_i e he
      rw [he, of_decide_eq_true htag]
    · cases htag
  have hverdict : ¬ Short (decode d) := by
    rw [hd]
    exact nofun
  exact ⟨hd, decode_prefix_code hverdict⟩

end LuaKernel.Chunk
