import AmqpEnvelope.Outline
import AmqpEnvelope.Proofs.Grammar.Combinator

/-!
# The grammar of outlines

What an outline accepts as a value.  Labels and offsets are left out of it: a value is
known by its bytes alone, so the grammar has no value of its own (`readsAt_node`,
`readsAt_value`).  Primitive values, described values, lists and maps are read to their
last part; everything else is one extent.
-/

namespace AmqpEnvelope

open Cursor

namespace Grammar

variable {α : Type}

/-- The bytes of a grammar, whatever they stand for. -/
def discarded (g : Grammar α) : Grammar Unit := (fun _ => ()) <$> g

/-- A value that starts with the given format code and whose parts are children. -/
def nodeOf (child : Grammar Unit) (format : FormatCode) : Grammar Unit :=
  match format.primitive?, format with
  | some p, _ => discarded (scalar p)
  | none, .described => described fun _ => child
  | none, .list0 | none, .list8 | none, .list32 =>
      listed fun count => discarded (times child count)
  | none, .map8 | none, .map32 => mapped fun entries => discarded (times child (entries * 2))
  | none, _ => extent

/-- A value whose parts are children.  Its format code says what it is. -/
def nodeWith (child : Grammar Unit) : Grammar Unit := fun bounds n bs u =>
  ∃ format rest, bs = FormatCode.toByte format :: rest ∧ nodeOf child format bounds n bs u

/-- A value that may nest so many levels deep. -/
def node : (room : Nat) → Grammar Unit
  | 0 => nodeWith fail
  | room + 1 => nodeWith (node room)

end Grammar

/-! ## Extents -/

namespace Spans

theorem nodeOf {child : Grammar Unit} (hchild : Spans child) (format : FormatCode) :
    Spans (Grammar.nodeOf child format) := by
  unfold Grammar.nodeOf
  split
  · exact Spans.map _ (Spans.scalar _)
  · exact Spans.described fun _ => hchild
  · exact Spans.listed _
  · exact Spans.listed _
  · exact Spans.listed _
  · exact Spans.mapped _
  · exact Spans.mapped _
  · exact fun _ _ _ _ h => h

theorem nodeWith {child : Grammar Unit} (hchild : Spans child) :
    Spans (Grammar.nodeWith child) := by
  rintro bounds n bs u ⟨format, rest, -, hnode⟩
  exact nodeOf hchild format hnode

theorem node (room : Nat) : Spans (Grammar.node room) := by
  induction room with
  | zero => exact nodeWith Spans.fail
  | succ room ih => exact nodeWith ih

end Spans

/-! ## Readers of outlines -/

section

variable {c : Cursor} {child : Decoding Node} {g : Grammar Unit}

theorem peekFormat?_eq {n : Nat} {format : FormatCode} {rest : Bytes}
    (h : c.Offers n (format.toByte :: rest)) : c.peekFormat? = some format := by
  rw [peekFormat?, h.peekByte?_eq (List.cons_ne_nil _ _)]
  exact FormatCode.ofByte?_toByte format

theorem eq_cons_of_peekFormat? {n : Nat} {format : FormatCode} {bs : Bytes}
    (h : c.Offers n bs) (hne : bs ≠ []) (hpeek : c.peekFormat? = some format) :
    ∃ rest, bs = format.toByte :: rest := by
  rw [peekFormat?, h.peekByte?_eq hne] at hpeek
  cases bs with
  | nil => exact absurd rfl hne
  | cons byte rest =>
      obtain rfl := FormatCode.toByte_of_ofByte? hpeek
      exact ⟨rest, rfl⟩

/-- Every extent starts with a format code, so nothing can be skipped where there is
none. -/
theorem skip_ne_ok_of_peekFormat? (hc : c.Coherent) (hpeek : c.peekFormat? = none)
    {c' : Cursor} : skip c ≠ .ok () c' := by
  intro h
  obtain ⟨n, bs, ⟨-, hextent⟩, hpasses⟩ := (readsAt_skip hc).sound h
  obtain ⟨format, rest, rfl⟩ := hextent.exists_code
  rw [peekFormat?_eq hpasses.1] at hpeek
  cases hpeek

/-- Where a format code is seen, only the values that start with it matter. -/
private theorem readsAt_of_peekFormat? {reader : Decoding Unit} {format : FormatCode}
    (hpeek : c.peekFormat? = some format) (hg : Spans g)
    (hreader : ReadsAt c reader (Grammar.nodeOf g format)) :
    ReadsAt c reader (Grammar.nodeWith g) where
  sound h := by
    obtain ⟨n, bs, hnode, hpasses⟩ := hreader.sound h
    have hne := (Spans.nodeOf hg format hnode).2.ne_nil
    obtain ⟨rest, rfl⟩ := eq_cons_of_peekFormat? hpasses.1 hne hpeek
    exact ⟨n, _, ⟨format, rest, rfl, hnode⟩, hpasses⟩
  complete := by
    rintro bounds n _ u hbounds ⟨format', rest, rfl, hnode⟩ hoffers
    rw [peekFormat?_eq hoffers] at hpeek
    cases hpeek
    exact hreader.complete hbounds hnode hoffers

/-- The label of a value is discarded. -/
private theorem readsAt_discard_label {α β : Type} {reader : Decoding α} {f : α → β}
    {g' : Grammar Unit} (h : ReadsAt c ((fun _ => ()) <$> reader) g') :
    ReadsAt c ((fun _ => ()) <$> do
      let a ← reader
      return f a) g' := by
  simp only [map_bind, map_pure] at h ⊢
  exact h

/-- The label of a container is discarded. -/
private theorem readsAt_discard_bracket {ω α β : Type} {enter : Decoding ω}
    {body : ω → Decoding α} {leave : Decoding Unit} {f : ω → α → β} {g' : Grammar Unit}
    (h : ReadsAt c (do
      let w ← enter
      let u ← (fun _ => ()) <$> body w
      leave
      return u) g') :
    ReadsAt c ((fun _ => ()) <$> do
      let w ← enter
      let a ← body w
      leave
      return f w a) g' := by
  simp only [map_bind, map_pure, bind_map_left] at h ⊢
  exact h

private theorem discard_captured_iff {bounds : Limits} {n : Nat} {bs : Bytes} {u : Unit} :
    ((fun _ => ()) <$> Grammar.captured) bounds n bs u ↔ Grammar.extent bounds n bs u := by
  rw [Grammar.map_iff]
  constructor
  · rintro ⟨_, ⟨rfl, hextent, rfl⟩, -⟩
    exact ⟨rfl, hextent⟩
  · rintro ⟨rfl, hextent⟩
    exact ⟨bs, ⟨rfl, hextent, rfl⟩, rfl⟩

/-- A value is read by what its format code says. -/
theorem readsAt_nodeWith (hc : c.Coherent) (hg : Spans g)
    (hchild : ReadsInside c ((fun _ => ()) <$> child) g) :
    ReadsAt c ((fun _ => ()) <$> Outline.nodeWith child) (Grammar.nodeWith g) := by
  have htimes : ∀ n, ReadsInside c ((fun _ => ()) <$> collect child n [])
      (Grammar.discarded (Grammar.times g n)) := by
    intro n
    have hcollect := (readsInside_collect hchild n []).map fun _ => ()
    rw [← List.map_nil, ← map_collect] at hcollect
    simpa [Grammar.discarded] using hcollect
  rw [Outline.nodeWith, map_bind]
  refine .asks ?_
  rw [map_bind]
  refine .asks ?_
  cases hpeek : c.peekFormat? with
  | none =>
      -- Where no format code stands, no value is offered, and skipping fails.
      refine ⟨fun h => ?_, ?_⟩
      · obtain ⟨_, hok, -⟩ := map_eq_ok_iff.mp h
        obtain ⟨_, c₁, hskip, -⟩ := bind_eq_ok_iff.mp hok
        exact absurd hskip (skip_ne_ok_of_peekFormat? hc hpeek)
      · rintro bounds n _ u - ⟨format, rest, rfl, -⟩ hoffers
        rw [peekFormat?_eq hoffers] at hpeek
        cases hpeek
  | some format =>
      refine readsAt_of_peekFormat? hpeek hg ?_
      unfold Grammar.nodeOf
      dsimp only
      cases hp : format.primitive? with
      | some p =>
          have hscalar := (readsAt_read hc p).map fun _ => ()
          exact readsAt_discard_label (readsAt_discard_label hscalar)
      | none =>
          cases format with
          | described => exact readsAt_discard_bracket (readsAt_described hc fun _ => hchild)
          | list0 | list8 | list32 => exact readsAt_discard_bracket (readsAt_listed hc htimes)
          | map8 | map32 =>
              exact readsAt_discard_bracket
                (readsAt_mapped hc fun entries => htimes (entries * 2))
          | array8 | array32 | decimal32 | decimal64 | decimal128 =>
              have hcapture := (readsAt_capture hc).map fun _ => ()
              exact readsAt_discard_label (hcapture.of_iff discard_captured_iff)
          | _ => cases hp

theorem readsAt_node (hc : c.Coherent) (room : Nat) :
    ReadsAt c ((fun _ => ()) <$> Outline.node room) (Grammar.node room) := by
  induction room generalizing c with
  | zero =>
      refine readsAt_nodeWith hc Spans.fail fun c₁ _ => ?_
      rw [Outline.tooDeep, map_bind]
      exact .get (.throw _)
  | succ room ih => exact readsAt_nodeWith hc (Spans.node room) fun c₁ hc₁ => ih hc₁.coherent

theorem readsAt_value (hc : c.Coherent) :
    ReadsAt c ((fun _ => ()) <$> Outline.value) (Grammar.node c.allowance.maxDepth) := by
  rw [Outline.value, map_bind]
  exact .get (readsAt_node hc _)

end

end AmqpEnvelope
