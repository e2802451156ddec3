import AmqpEnvelope.Proofs.Cursor.Walk
import AmqpEnvelope.Proofs.Grammar.Basic

/-!
# Two walks in step

What a reader does at a cursor is decided by little: by the place, the open frames, the
bytes before the bound, the bounds of the walk and the marked root.  So two runs of one
reader can be followed side by side, over two inputs or under two settings, and as long as
they differ in nothing that counts they go in step: they give the same value or the same
error, and leave cursors at the same place.

A `Ground` says what two walks have in common and wherein they may differ.  On it, two
cursors may stand `Abreast`, at a `Level` of nesting that is not above the frames around
the walks.  Two outcomes `Agree` if they are the same and their cursors are abreast; only
where the second walk has wider limits than the first may a limit cut the first one off
before the second.  Agreement of readers is kept by sequences (`InStep.bind`), so it has to
be shown of the single accesses only.
-/

namespace AmqpEnvelope

/-- A composite was refused for its descriptor. -/
def DecodeError.isUnknown : DecodeError → Bool
  | .unknownDescriptor _ _ => true
  | _ => false

/-! ## Grounds -/

/-- What two walks share.  What is said of the second walk carries a prime. -/
structure Ground where
  /-- The declared ends of the frames that stay open around the walks, innermost first. -/
  around : List (Option Nat)
  /-- Where the walks begin. -/
  start : Nat
  /-- Before this place both inputs hold the same bytes. -/
  horizon : Nat
  size : Nat
  size' : Nat
  limits : Limits
  limits' : Limits
  /-- The slot that is marked as the root. -/
  root : Option (Nat × Nat)
  /-- The types that were begun before. -/
  begun : List String
  begun' : List String
  /-- The errors that may arise on the way. -/
  Fault : DecodeError → Prop
  limits_le : limits ≤ limits'
  /-- The frames around end before the horizon. -/
  around_le : (around.findSome? id).getD size ≤ horizon
  /-- They end at the same place, be that a declared end or the end of the input. -/
  around_eq : (around.findSome? id).getD size' = (around.findSome? id).getD size
  /-- Every error between the start and the horizon may arise, but for a refusal. -/
  fault_of : ∀ e : DecodeError, e.isUnknown = false → start ≤ e.offset → e.offset ≤ horizon →
    Fault e

namespace Ground

/-- A place between the start and the horizon. -/
def Covers (g : Ground) (place : Nat) : Prop := g.start ≤ place ∧ place ≤ g.horizon

/-- Both inputs are the same to their end. -/
def Whole (g : Ground) : Prop := g.size' = g.size ∧ g.size ≤ g.horizon

/-- The frames around are open, and so many frames in all.  Each of the others took a byte
to open. -/
structure Level (g : Ground) (n : Nat) (c : Cursor) : Prop where
  depth_eq : c.depth = n
  around : g.around <:+ c.frames.map Frame.endsAt
  behind : g.start + (n - g.around.length) ≤ c.position
  root_eq : c.root = g.root

end Ground

open Cursor

/-- Two cursors stand at the same place of a ground. -/
structure Abreast (g : Ground) (c c' : Cursor) : Prop where
  coherent : c.Coherent
  coherent' : c'.Coherent
  position_eq : c'.position = c.position
  frames_eq : c'.frames = c.frames
  root_eq : c'.root = c.root
  size_eq : c.size = g.size
  size_eq' : c'.size = g.size'
  limits_eq : c.limits = g.limits
  limits_eq' : c'.limits = g.limits'
  /-- The bytes from here to the horizon are the same. -/
  same_bytes : c'.unread.take (g.horizon - c.position) = c.unread.take (g.horizon - c.position)
  /-- The same types were begun on the way. -/
  begun : ∃ names, c.entered = names ++ g.begun ∧ c'.entered = names ++ g.begun'

/-! ## Bounds on a ground -/

theorem innermostEnd?_eq_findSome? (frames : List Frame) :
    innermostEnd? frames = (frames.map Frame.endsAt).findSome? id := by
  induction frames with
  | nil => rfl
  | cons frame outer ih =>
      rw [List.map_cons, innermostEnd?]
      cases hend : frame.endsAt with
      | none => simpa only [List.findSome?_cons, id] using ih
      | some e => rfl

/-- The innermost declared end lies before that of any frames around. -/
theorem Cursor.EndsNest.innermost_le {size low : Nat} {frames : List Frame}
    {ends : List (Option Nat)} (h : EndsNest size low frames)
    (hends : ends <:+ frames.map Frame.endsAt) :
    (innermostEnd? frames).getD size ≤ (ends.findSome? id).getD size := by
  induction frames generalizing low with
  | nil =>
      obtain rfl := List.suffix_nil.mp hends
      exact Nat.le_refl size
  | cons frame outer ih =>
      rcases List.suffix_cons_iff.mp hends with rfl | houter
      · exact Nat.le_of_eq (by rw [innermostEnd?_eq_findSome?, List.map_cons])
      · cases hend : frame.endsAt with
        | none =>
            simp only [innermostEnd?, hend]
            exact ih ((EndsNest.cons_none hend).mp h) houter
        | some e =>
            obtain ⟨-, hnested⟩ := (EndsNest.cons_some hend).mp h
            simp only [innermostEnd?, hend, Option.getD_some]
            exact Nat.le_trans hnested.le_innermost (ih hnested houter)

namespace Abreast

variable {g : Ground} {n : Nat} {c c' : Cursor}

theorem depth_eq (h : Abreast g c c') : c'.depth = c.depth := by
  rw [depth, depth, h.frames_eq]

theorem limits_le (h : Abreast g c c') : c.limits ≤ c'.limits := by
  rw [h.limits_eq, h.limits_eq']
  exact g.limits_le

theorem limits_same (h : Abreast g c c') (hlimits : g.limits = g.limits') :
    c'.limits = c.limits := by
  rw [h.limits_eq, h.limits_eq', hlimits]

theorem atRootSlot_eq (h : Abreast g c c') : c'.atRootSlot = c.atRootSlot := by
  rw [atRootSlot, atRootSlot, h.root_eq, h.depth_eq, h.position_eq]

theorem bound_le (h : Abreast g c c') (hlevel : g.Level n c) : c.bound ≤ g.horizon := by
  have hinnermost := h.coherent.nested.innermost_le hlevel.around
  rw [h.size_eq] at hinnermost
  rw [bound, h.size_eq]
  exact Nat.le_trans hinnermost g.around_le

/-- Where no end is declared at all, both inputs end at the same place. -/
theorem bound_eq (h : Abreast g c c') (hlevel : g.Level n c) : c'.bound = c.bound := by
  rw [bound, bound, h.frames_eq, h.size_eq, h.size_eq']
  cases hend : innermostEnd? c.frames with
  | some e => rfl
  | none =>
      -- Then none of the frames around declares an end either.
      obtain ⟨inner, hinner⟩ := hlevel.around
      rw [innermostEnd?_eq_findSome?, ← hinner, List.findSome?_append,
        Option.or_eq_none_iff] at hend
      have hsizes := g.around_eq
      rw [hend.2] at hsizes
      exact hsizes

theorem available_eq (h : Abreast g c c') (hlevel : g.Level n c) : c'.available = c.available := by
  rw [available, available, h.bound_eq hlevel, h.position_eq]

theorem covers_position (h : Abreast g c c') (hlevel : g.Level n c) : g.Covers c.position :=
  ⟨Nat.le_trans (Nat.le_add_right _ _) hlevel.behind,
    Nat.le_trans h.coherent.position_le_bound (h.bound_le hlevel)⟩

theorem fault (h : Abreast g c c') (hlevel : g.Level n c) {e : DecodeError}
    (hunknown : e.isUnknown = false) (hoffset : e.offset = c.position) : g.Fault e := by
  obtain ⟨hstart, hend⟩ := h.covers_position hlevel
  exact g.fault_of e hunknown (hoffset ▸ hstart) (hoffset ▸ hend)

/-- Bytes before the bound are the same. -/
theorem take_eq (h : Abreast g c c') (hlevel : g.Level n c) {k : Nat} (hfits : k ≤ c.available) :
    c'.unread.take k = c.unread.take k := by
  have hbound := h.bound_le hlevel
  have hk : k ≤ g.horizon - c.position := by
    unfold available at hfits
    omega
  have hsame := congrArg (List.take k) h.same_bytes
  rwa [List.take_take, List.take_take, Nat.min_eq_left hk] at hsame

theorem peekByte?_eq (h : Abreast g c c') (hlevel : g.Level n c) : c'.peekByte? = c.peekByte? := by
  rw [peekByte?, peekByte?, h.position_eq, h.bound_eq hlevel]
  by_cases hbefore : c.position < c.bound
  · have hfits : 1 ≤ c.available := Nat.sub_pos_of_lt hbefore
    have hhead := congrArg List.head? (h.take_eq hlevel hfits)
    rw [if_pos hbefore, if_pos hbefore]
    simpa only [List.head?_take, Nat.one_ne_zero, if_false] using hhead
  · rw [if_neg hbefore, if_neg hbefore]

theorem peekFormat?_eq (h : Abreast g c c') (hlevel : g.Level n c) :
    c'.peekFormat? = c.peekFormat? := by
  rw [peekFormat?, peekFormat?, h.peekByte?_eq hlevel]

theorem atNull_eq (h : Abreast g c c') (hlevel : g.Level n c) : c'.atNull = c.atNull := by
  rw [atNull, atNull, h.peekByte?_eq hlevel]

/-- Inputs that are the same to their end have the same bytes left. -/
theorem unread_eq (h : Abreast g c c') (hwhole : g.Whole) : c'.unread = c.unread := by
  obtain ⟨hsizes, hhorizon⟩ := hwhole
  have hlength := h.coherent.position_add_length
  have hlength' := h.coherent'.position_add_length
  have hposition := h.position_eq
  have hsize := h.size_eq
  have hsize' := h.size_eq'
  have hsame := h.same_bytes
  rwa [List.take_of_length_le (by omega), List.take_of_length_le (by omega)] at hsame

/-! ### Moves -/

theorem advance (h : Abreast g c c') {k : Nat} (hc : (c.advance k).Coherent)
    (hc' : (c'.advance k).Coherent) : Abreast g (c.advance k) (c'.advance k) where
  coherent := hc
  coherent' := hc'
  position_eq := congrArg (· + k) h.position_eq
  frames_eq := h.frames_eq
  root_eq := h.root_eq
  size_eq := h.size_eq
  size_eq' := h.size_eq'
  limits_eq := h.limits_eq
  limits_eq' := h.limits_eq'
  same_bytes := by
    have hsame := congrArg (List.drop k) h.same_bytes
    simpa only [List.drop_take, Nat.sub_sub, advance_unread, advance_position] using hsame
  begun := h.begun

theorem pass (h : Abreast g c c') (hlevel : g.Level n c) {k : Nat} (hfits : k ≤ c.available) :
    Abreast g (c.advance k) (c'.advance k) := by
  have hfits' : k ≤ c'.available := by rwa [h.available_eq hlevel]
  exact h.advance ((Move.pass k hfits).coherent h.coherent)
    ((Move.pass k hfits').coherent h.coherent')

theorem within (h : Abreast g c c') {frames : List Frame} (hc : (c.within frames).Coherent)
    (hc' : (c'.within frames).Coherent) : Abreast g (c.within frames) (c'.within frames) where
  coherent := hc
  coherent' := hc'
  position_eq := h.position_eq
  frames_eq := rfl
  root_eq := h.root_eq
  size_eq := h.size_eq
  size_eq' := h.size_eq'
  limits_eq := h.limits_eq
  limits_eq' := h.limits_eq'
  same_bytes := h.same_bytes
  begun := h.begun

theorem begin (h : Abreast g c c') (name : String) :
    Abreast g { c with entered := name :: c.entered }
      { c' with entered := name :: c'.entered } where
  coherent := (Move.begin name).coherent h.coherent
  coherent' := (Move.begin name).coherent h.coherent'
  position_eq := h.position_eq
  frames_eq := h.frames_eq
  root_eq := h.root_eq
  size_eq := h.size_eq
  size_eq' := h.size_eq'
  limits_eq := h.limits_eq
  limits_eq' := h.limits_eq'
  same_bytes := h.same_bytes
  begun := by
    obtain ⟨names, hnames, hnames'⟩ := h.begun
    exact ⟨name :: names, congrArg (name :: ·) hnames, congrArg (name :: ·) hnames'⟩

end Abreast

/-- Where the walks begin, they are on the level of the frames around. -/
theorem Ground.level_self {g : Ground} {c : Cursor} (haround : g.around = c.frames.map Frame.endsAt)
    (hstart : g.start = c.position) (hroot : g.root = c.root) : g.Level c.depth c where
  depth_eq := rfl
  around := haround ▸ List.suffix_refl _
  behind := by
    rw [haround, List.length_map, hstart, depth, Nat.sub_self]
    exact Nat.le_refl _
  root_eq := hroot.symm

namespace Ground.Level

variable {g : Ground} {n : Nat} {c : Cursor}

theorem around_length_le (h : g.Level n c) : g.around.length ≤ n := by
  have hlength := h.around.length_le
  rw [List.length_map] at hlength
  exact h.depth_eq ▸ hlength

theorem advance (h : g.Level n c) (k : Nat) : g.Level n (c.advance k) :=
  ⟨h.depth_eq, h.around, Nat.le_trans h.behind (Nat.le_add_right _ _), h.root_eq⟩

theorem claim (h : g.Level n c) {frame : Frame} {outer : List Frame}
    (hframes : c.frames = frame :: outer) : g.Level n (c.within (frame.claimed :: outer)) := by
  have hdepth := h.depth_eq
  have haround := h.around
  rw [depth, hframes] at hdepth
  rw [hframes] at haround
  exact ⟨hdepth, haround, h.behind, h.root_eq⟩

/-- A frame that is opened is one more, and a byte was read for it. -/
theorem push (h : g.Level n c) (hpast : g.start + (n - g.around.length) < c.position)
    (frame : Frame) : g.Level (n + 1) (c.within (frame :: c.frames)) where
  depth_eq := congrArg (· + 1) h.depth_eq
  around := h.around.trans (List.suffix_cons _ _)
  behind := by
    rw [within_position, Nat.succ_sub h.around_length_le]
    exact hpast
  root_eq := h.root_eq

/-- The frames around stay open when a frame that was opened on the way is closed. -/
theorem close (h : g.Level (n + 1) c) (hn : g.around.length ≤ n) {frame : Frame}
    {outer : List Frame} (hframes : c.frames = frame :: outer) : g.Level n (c.within outer) := by
  have hdepth := h.depth_eq
  have haround := h.around
  have hbehind := h.behind
  rw [depth, hframes, List.length_cons, Nat.add_right_cancel_iff] at hdepth
  rw [hframes, List.map_cons] at haround
  refine ⟨hdepth, ?_, ?_, h.root_eq⟩
  · rcases List.suffix_cons_iff.mp haround with heq | houter
    · have hlength := congrArg List.length heq
      rw [List.length_cons, List.length_map] at hlength
      omega
    · exact houter
  · rw [within_position]
    omega

theorem begin (h : g.Level n c) (name : String) :
    g.Level n { c with entered := name :: c.entered } :=
  ⟨h.depth_eq, h.around, h.behind, h.root_eq⟩

end Ground.Level

/-! ## Agreement -/

/-- Two outcomes are the same, with cursors abreast; or the first walk was cut off by a limit
that is not the limit of the second. -/
inductive Agree (g : Ground) (n : Nat) {α : Type} : EStateM.Result DecodeError Cursor α →
    EStateM.Result DecodeError Cursor α → Prop
  | ok (value : α) {c c' : Cursor} (h : Abreast g c c') (hlevel : g.Level n c) :
      Agree g n (.ok value c) (.ok value c')
  | error (e : DecodeError) {c c' : Cursor} (hfault : g.Fault e) (h : Abreast g c c') :
      Agree g n (.error e c) (.error e c')
  | cut (e : DecodeError) {c : Cursor} {r' : EStateM.Result DecodeError Cursor α}
      (hlimit : e.isLimit = true) (hlimits : g.limits ≠ g.limits') : Agree g n (.error e c) r'

/-- From cursors abreast on one level, two readers agree and reach the same level. -/
def InStep (g : Ground) (m n : Nat) {α : Type} (reader reader' : Decoding α) : Prop :=
  ∀ ⦃c c' : Cursor⦄, Abreast g c c' → g.Level m c → Agree g n (reader c) (reader' c')

section

variable {α β : Type} {g : Ground} {k m n : Nat} {c c' : Cursor}

theorem Agree.bind {reader reader' : Decoding α} {next next' : α → Decoding β}
    (hreader : Agree g k (reader c) (reader' c'))
    (hnext : ∀ a c₁ c₁', reader c = .ok a c₁ → Abreast g c₁ c₁' → g.Level k c₁ →
      Agree g n (next a c₁) (next' a c₁')) :
    Agree g n ((reader >>= next) c) ((reader' >>= next') c') := by
  simp only [Bind.bind, EStateM.bind]
  cases hfirst : reader c with
  | ok a c₁ =>
      cases hfirst' : reader' c' with
      | ok a' c₁' =>
          rw [hfirst, hfirst'] at hreader
          cases hreader with
          | ok _ h hlevel => exact hnext a c₁ c₁' hfirst h hlevel
      | error e' c₁' =>
          rw [hfirst, hfirst'] at hreader
          cases hreader
  | error e c₁ =>
      rw [hfirst] at hreader
      generalize reader' c' = second at hreader
      cases hreader with
      | error _ hfault h => exact .error e hfault h
      | cut _ hlimit hlimits => exact .cut e hlimit hlimits

/-- Where the limits are the same, an error is one that may arise. -/
theorem Agree.fault {e : DecodeError} {r' : EStateM.Result DecodeError Cursor α}
    (h : Agree g n (.error e c) r') (hlimits : g.limits = g.limits') : g.Fault e := by
  cases h with
  | error _ hfault _ => exact hfault
  | cut _ _ hdiffer => exact absurd hlimits hdiffer

theorem Agree.map {f : α → β} {reader reader' : Decoding α}
    (hreader : Agree g n (reader c) (reader' c')) :
    Agree g n ((f <$> reader) c) ((f <$> reader') c') := by
  simp only [Functor.map, EStateM.map]
  generalize reader c = first at hreader
  generalize reader' c' = second at hreader
  cases hreader with
  | ok a h hlevel => exact .ok (f a) h hlevel
  | error e hfault h => exact .error e hfault h
  | cut e hlimit hlimits => exact .cut e hlimit hlimits

namespace InStep

variable {reader reader' : Decoding α} {next next' : α → Decoding β}

theorem bind (hreader : InStep g m k reader reader')
    (hnext : ∀ a, InStep g k n (next a) (next' a)) :
    InStep g m n (reader >>= next) (reader' >>= next') :=
  fun _ _ h hlevel => (hreader h hlevel).bind fun a _ _ _ h₁ hlevel₁ => hnext a h₁ hlevel₁

theorem map {f : α → β} (hreader : InStep g m n reader reader') :
    InStep g m n (f <$> reader) (f <$> reader') :=
  fun _ _ h hlevel => (hreader h hlevel).map

theorem pure (a : α) : InStep g n n (pure a) (pure a) := fun _ _ h hlevel => .ok a h hlevel

theorem throw {e : DecodeError} (hfault : g.Fault e) :
    InStep g m n (throw e : Decoding α) (throw e) :=
  fun _ _ h _ => .error e hfault h

/-- A refusal of the bytes, at a place on the ground. -/
theorem mismatch {cause : Mismatch} {offset : Nat} (hoffset : g.Covers offset) :
    InStep g m n (Cursor.mismatch cause offset : Decoding α) (Cursor.mismatch cause offset) :=
  throw (g.fault_of _ rfl hoffset.1 hoffset.2)

/-- A limit is exceeded by a value on the ground. -/
theorem limitExceeded {limit : LimitKind} {actual bound offset : Nat} (hoffset : g.Covers offset) :
    InStep g m n (MonadExcept.throw (.limitExceeded limit actual bound offset) : Decoding α)
      (MonadExcept.throw (.limitExceeded limit actual bound offset)) :=
  throw (g.fault_of _ rfl hoffset.1 hoffset.2)

end InStep

/-- Looking at the cursor moves neither. -/
theorem Agree.asks {f f' : Cursor → α} {next next' : α → Decoding β}
    (hnext : Agree g n (next (f c) c) (next' (f' c') c')) :
    Agree g n ((Cursor.asks f >>= next) c) ((Cursor.asks f' >>= next') c') := hnext

theorem Agree.get {next next' : Cursor → Decoding β}
    (hnext : Agree g n (next c c) (next' c' c')) :
    Agree g n (((get : Decoding Cursor) >>= next) c) (((get : Decoding Cursor) >>= next') c') :=
  hnext

end

/-! ## Walks over one input -/

namespace Cursor

/-- The ground of two walks from one cursor, of which the second may have wider limits. -/
def ground (c : Cursor) (hc : c.Coherent) {limits' : Limits} (hlimits : c.limits ≤ limits') :
    Ground where
  around := c.frames.map Frame.endsAt
  start := c.position
  horizon := c.size
  size := c.size
  size' := c.size
  limits := c.limits
  limits' := limits'
  root := c.root
  begun := c.entered
  begun' := c.entered
  Fault := fun _ => True
  limits_le := hlimits
  around_le := by
    rw [← innermostEnd?_eq_findSome?]
    exact hc.bound_le_size
  around_eq := rfl
  fault_of := fun _ _ _ _ => trivial

section

variable {c : Cursor} {hc : c.Coherent} {limits' : Limits} {hlimits : c.limits ≤ limits'}

theorem whole_ground : (c.ground hc hlimits).Whole := ⟨rfl, Nat.le_refl _⟩

theorem level_ground : (c.ground hc hlimits).Level c.depth c := Ground.level_self rfl rfl rfl

theorem abreast_ground : Abreast (c.ground hc hlimits) c { c with limits := limits' } where
  coherent := hc
  coherent' :=
    { hc with
      count_le := fun frame hframe hkind =>
        Nat.le_trans (hc.count_le frame hframe hkind) hlimits.2
      depth_le := Nat.le_trans hc.depth_le hlimits.1 }
  position_eq := rfl
  frames_eq := rfl
  root_eq := rfl
  size_eq := rfl
  size_eq' := rfl
  limits_eq := rfl
  limits_eq' := rfl
  same_bytes := rfl
  begun := ⟨[], rfl, rfl⟩

end

end Cursor

/-- Two walks from one cursor under the same limits are at one cursor whenever they are
abreast. -/
theorem Abreast.eq_of_ground {c c₁ c₁' : Cursor} {hc : c.Coherent}
    (h : Abreast (c.ground hc (Limits.le_refl _)) c₁ c₁') : c₁' = c₁ := by
  have hunread := h.unread_eq whole_ground
  have hposition := h.position_eq
  have hsize := h.size_eq.trans h.size_eq'.symm
  have hframes := h.frames_eq
  have hlimits := h.limits_same rfl
  have hroot := h.root_eq
  have hbegun : c₁.entered = c₁'.entered := by
    obtain ⟨names, hnames, hnames'⟩ := h.begun
    exact hnames.trans hnames'.symm
  cases c₁
  cases c₁'
  simp only [Cursor.mk.injEq]
  exact ⟨hunread, hposition, hsize.symm, hframes, hlimits, hroot, hbegun.symm⟩

theorem Agree.eq_of_ground {α : Type} {c : Cursor} {hc : c.Coherent} {n : Nat}
    {r r' : EStateM.Result DecodeError Cursor α}
    (h : Agree (c.ground hc (Limits.le_refl _)) n r r') : r' = r := by
  cases h with
  | ok value h _ => rw [h.eq_of_ground]
  | error e _ h => rw [h.eq_of_ground]
  | cut e _ hlimits => exact absurd rfl hlimits

end AmqpEnvelope
