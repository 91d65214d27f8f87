import LuaKernel.Proofs.Chunk.RoundTrip

/-!
# Stripping a chunk

`Prototype.strip` clears the source and the tables for the debugger at every function of a tree. Writing
with stripping writes what writing the stripped tree writes: the writer's branch for stripping ignores
sources, and a tree without sources has none that could differ from an enclosing one.

* `SameButDebug p q`: `q` is `p` with other sources and other tables for the debugger, at any depth. Such
  trees have one stripped tree (`SameButDebug.strip_eq`).
* `encodeFunction_strip`: the two ways of writing agree on every function, whatever encloses it.
* `encode_stripped`: so they agree on chunks, with their errors; a stripped chunk loads as the stripped
  tree, and does not tell trees apart that are the same but for debugging.
-/

namespace LuaKernel

/-- The function without its source and without its tables for the debugger. -/
def FunctionBody.strip (f : FunctionBody) : FunctionBody :=
  { f with source := none, lines := [], locals := [], upvalueNames := [] }

namespace Prototype

mutual

/-- The tree without sources and without tables for the debugger. -/
def strip : Prototype → Prototype
  | .mk f children => .mk f.strip (stripAll children)

def stripAll : List Prototype → List Prototype
  | [] => []
  | p :: ps => strip p :: stripAll ps

end

theorem stripAll_eq (ps : List Prototype) : stripAll ps = ps.map strip := by
  induction ps with
  | nil => rfl
  | cons p ps ih => simp [stripAll, ih]

theorem strip_mk (f : FunctionBody) (children : List Prototype) :
    (mk f children).strip = .mk f.strip (children.map strip) := by
  rw [strip, stripAll_eq]

theorem nesting_strip_le {p : Prototype} {n : Nat} (h : p.nesting ≤ n) : p.strip.nesting ≤ n := by
  induction p generalizing n with
  | mk f children ih =>
    rw [strip_mk, nesting_mk_le]
    rw [nesting_mk_le] at h
    intro c hc
    obtain ⟨c, hm, rfl⟩ := List.mem_map.1 hc
    have hlt := h c hm
    have hle := ih c hm (Nat.le_sub_one_of_lt hlt)
    omega

theorem sourceClosed_strip (p : Prototype) : p.strip.SourceClosed := by
  induction p with
  | mk f children ih =>
    rw [strip_mk, sourceClosed_mk]
    intro c hc
    obtain ⟨c, hm, rfl⟩ := List.mem_map.1 hc
    exact ⟨fun _ => rfl, ih c hm⟩

/-- The second tree is the first with other sources and other tables for the debugger. The pairs of
`inside` are the functions inside the two roots, in order. -/
inductive SameButDebug : Prototype → Prototype → Prop
  | mk (f : FunctionBody) (source : Option Bytes) (lines : List UInt32) (locals : List LocalVariable)
      (upvalueNames : List Bytes) (inside : List (Prototype × Prototype))
      (hinside : ∀ pair ∈ inside, SameButDebug pair.1 pair.2) :
      SameButDebug (.mk f (inside.map Prod.fst))
        (.mk { f with source, lines, locals, upvalueNames } (inside.map Prod.snd))

theorem SameButDebug.strip_eq {p q : Prototype} (h : SameButDebug p q) : p.strip = q.strip := by
  induction h with
  | mk f source lines locals upvalueNames inside _ ih =>
    simp only [strip_mk, List.map_map]
    have hinside : inside.map (strip ∘ Prod.fst) = inside.map (strip ∘ Prod.snd) :=
      List.map_congr_left fun pair hpair => ih pair hpair
    rw [hinside]
    rfl

end Prototype

namespace Chunk

open Prototype

/-! ## The two ways of writing a stripped function -/

/-- No source is written of a function that has none. -/
theorem encodeFront_strip (enclosing enclosing' : Option Bytes) (f : FunctionBody) :
    encodeFront true enclosing f = encodeFront false enclosing' f.strip := by
  unfold encodeFront
  have hsource : (if false || f.strip.source == enclosing' then none else f.strip.source) = none := by
    split <;> rfl
  rw [hsource]
  rfl

/-- Three empty tables are three counts of zero. -/
theorem encodeBack_strip (f : FunctionBody) : encodeBack true f = encodeBack false f.strip := rfl

theorem encodeFunctions_congr {strip strip' : Bool} {enclosing enclosing' : Option Bytes}
    {ps : List Prototype} {g : Prototype → Prototype}
    (h : ∀ p ∈ ps, encodeFunction strip enclosing p = encodeFunction strip' enclosing' (g p)) :
    encodeFunctions strip enclosing ps = encodeFunctions strip' enclosing' (ps.map g) := by
  induction ps with
  | nil => rfl
  | cons p ps ih =>
    have hp := h p (.head _)
    have hps := ih fun q hq => h q (.tail _ hq)
    simp only [List.map_cons, encodeFunctions, hp, hps]

/-- **Stripping a function while writing it** is writing the stripped function, whatever the functions
around the two are. -/
theorem encodeFunction_strip (p : Prototype) (enclosing enclosing' : Option Bytes) :
    encodeFunction true enclosing p = encodeFunction false enclosing' p.strip := by
  induction p generalizing enclosing enclosing' with
  | mk f children ih =>
    have hinside : encodeFunctions true f.source children =
        encodeFunctions false f.strip.source (children.map Prototype.strip) :=
      encodeFunctions_congr fun c hc => ih c hc f.source f.strip.source
    rw [strip_mk]
    simp only [encodeFunction, encodeFront_strip enclosing enclosing', encodeBack_strip, hinside,
      List.length_map]

theorem upvalues_strip (p : Prototype) : p.strip.body.upvalues = p.body.upvalues := by
  obtain ⟨f, children⟩ := p
  rfl

theorem encode_strip (p : Prototype) : encode p true = encode p.strip false := by
  unfold encode
  rw [upvalues_strip, encodeFunction_strip p none none]

/-- **Stripping while writing is stripping first.** The two give the same bytes or the same error, so a
stripped chunk of a tree that nests no deeper than the limit loads as the stripped tree, and trees that
are the same but for sources and tables for the debugger have one stripped chunk. -/
theorem encode_stripped (p : Prototype) :
    encode p true = encode p.strip false ∧
      (∀ c, encode p true = .ok c → p.nesting ≤ 200 → decode c = .ok p.strip) ∧
      ∀ q, SameButDebug p q → encode p true = encode q true := by
  refine ⟨encode_strip p, fun c hc hnesting => ?_, fun q hq => ?_⟩
  · rw [encode_strip] at hc
    rw [decode_of_encode hc, if_pos (nesting_strip_le hnesting),
      resolve_eq_self (sourceClosed_strip p) fun _ => rfl]
  · rw [encode_strip p, encode_strip q, hq.strip_eq]

/-- A function with a source, a line and a named upvalue around one with another source and a local
variable; the second tree has none of these. -/
theorem encode_stripped_nested :
    let inner : FunctionBody := { source := some [0x6e], locals := [⟨[0x78], 0, 1⟩], paramCount := 1 }
    let outer : FunctionBody :=
      { source := some [0x6d], code := [⟨0⟩], lines := [7], upvalues := [⟨true, 0⟩],
        upvalueNames := [[0x5f]] }
    let p : Prototype := .mk outer [.mk inner []]
    let q : Prototype := .mk { code := [⟨0⟩], upvalues := [⟨true, 0⟩] } [.mk { paramCount := 1 } []]
    SameButDebug p q ∧ p.nesting ≤ 200 ∧
      ∃ c, encode p true = .ok c ∧ encode q true = .ok c ∧ decode c = .ok q := by
  intro inner outer p q
  have hinner : SameButDebug (.mk inner []) (.mk { paramCount := 1 } []) :=
    .mk inner none [] [] [] [] nofun
  have hq : SameButDebug p q :=
    .mk outer none [] [] [] [(.mk inner [], .mk { paramCount := 1 } [])] (by simpa using hinner)
  have hnesting : p.nesting ≤ 200 := by decide
  obtain ⟨c, hc⟩ : ∃ c, encode p true = .ok c := ⟨_, rfl⟩
  obtain ⟨-, hload, hsame⟩ := encode_stripped p
  exact ⟨hq, hnesting, c, hc, (hsame q hq).symm.trans hc, hload c hc hnesting⟩

end Chunk

end LuaKernel
