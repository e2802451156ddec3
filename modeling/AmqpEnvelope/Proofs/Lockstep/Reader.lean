import AmqpEnvelope.Proofs.Lockstep.Ground

/-!
# Readers in step

Every reader of the cursor is in step with itself.  For the accesses to bytes, elements and
frames this is shown once; the readers of primitive values, containers and skipped values
are sequences of those.

An offset that a reader is handed lies on the ground, since it is the place where the value
began, so an error that is raised there is one that may arise.
-/

namespace AmqpEnvelope

namespace Cursor

variable {α β : Type} {g : Ground} {m n : Nat} {c c' : Cursor}

/-! ## Raw access, elements and frames -/

theorem inStep_take (k : Nat) (what : String) : InStep g n n (take k what) (take k what) := by
  intro c c' h hlevel
  unfold take
  rw [h.available_eq hlevel]
  by_cases hfits : k ≤ c.available
  · rw [if_pos hfits, if_pos hfits, h.take_eq hlevel hfits]
    exact .ok _ (h.pass hlevel hfits) (hlevel.advance k)
  · rw [if_neg hfits, if_neg hfits, h.position_eq]
    exact .error _ (h.fault hlevel rfl rfl) h

/-- A property that cursors abreast share may be asked for. -/
theorem inStep_asks {f : Cursor → α} (hf : ∀ {c c'}, Abreast g c c' → g.Level n c → f c' = f c) :
    InStep g n n (asks f) (asks f) := by
  intro c c' h hlevel
  unfold asks
  rw [hf h hlevel]
  exact .ok _ h hlevel

theorem inStep_number (width : Nat) (what : String) :
    InStep g n n (number width what) (number width what) :=
  (inStep_take width what).bind fun _ => .pure _

theorem inStep_claim (what : String) : InStep g n n (claim what) (claim what) := by
  intro c c' h hlevel
  unfold claim
  rw [h.frames_eq]
  cases hframes : c.frames with
  | nil => exact .ok () h hlevel
  | cons frame outer =>
      have hframes' : c'.frames = frame :: outer := h.frames_eq.trans hframes
      by_cases hfull : frame.count ≤ frame.consumed
      · simp only [hfull, if_true, h.position_eq]
        exact .error _ (h.fault hlevel rfl rfl) h
      · simp only [hfull, if_false]
        have hspare := Nat.lt_of_not_le hfull
        exact .ok () (h.within ((Move.claim frame outer hframes hspare).coherent h.coherent)
          ((Move.claim frame outer hframes' hspare).coherent h.coherent')) (hlevel.claim hframes)

/-- A frame is opened on both sides, unless the first walk is as deep as it may be. -/
theorem agree_push (h : Abreast g c c') (hlevel : g.Level n c) {kind : FrameKind}
    {start count : Nat} {endsAt : Option Nat} (hstart : g.Covers start)
    (hpast : g.start + (n - g.around.length) < c.position)
    (hmove : c.depth < c.limits.maxDepth →
      Move c (c.within (⟨kind, start, endsAt, count, 0⟩ :: c.frames)))
    (hmove' : c'.depth < c'.limits.maxDepth →
      Move c' (c'.within (⟨kind, start, endsAt, count, 0⟩ :: c'.frames))) :
    Agree g (n + 1) (push kind start endsAt count c) (push kind start endsAt count c') := by
  unfold push
  by_cases hdeep : c.limits.maxDepth ≤ c.depth
  · rw [if_pos hdeep]
    by_cases hlimits : g.limits = g.limits'
    · have hsame := h.limits_same hlimits
      rw [hsame, h.depth_eq, if_pos hdeep]
      exact .error _ (g.fault_of _ rfl hstart.1 hstart.2) h
    · exact .cut _ rfl hlimits
  · -- Where the first walk has room, so has the second.
    have hroom := h.limits_le.1
    have hdepth := h.depth_eq
    have hdeep' : ¬ c'.limits.maxDepth ≤ c'.depth := by omega
    have hc := (hmove (Nat.lt_of_not_le hdeep)).coherent h.coherent
    have hc' := (hmove' (Nat.lt_of_not_le hdeep')).coherent h.coherent'
    rw [if_neg hdeep, if_neg hdeep']
    rw [h.frames_eq] at hc' ⊢
    exact .ok () (h.within hc hc') (hlevel.push hpast _)

theorem agree_push_described (h : Abreast g c c') (hlevel : g.Level n c) {start : Nat}
    (hstart : g.Covers start) (hpast : g.start + (n - g.around.length) < c.position) :
    Agree g (n + 1) (push .described start none 1 c) (push .described start none 1 c') :=
  agree_push h hlevel hstart hpast (fun hdepth => .describe start hdepth)
    fun hdepth => .describe start hdepth

/-- A list or map may be opened where its end lies between the cursor and the bound. -/
theorem agree_push_container (h : Abreast g c c') (hlevel : g.Level n c) {kind : FrameKind}
    {start declaredEnd count : Nat} (hstart : g.Covers start)
    (hpast : g.start + (n - g.around.length) < c.position) (hlow : c.position ≤ declaredEnd)
    (hend : declaredEnd ≤ c.bound) (hcount : count ≤ c.limits.maxCollectionLength) :
    Agree g (n + 1) (push kind start (some declaredEnd) count c)
      (push kind start (some declaredEnd) count c') := by
  refine agree_push h hlevel hstart hpast
    (fun hdepth => .contain kind start declaredEnd count hdepth hlow hend hcount)
    fun hdepth => .contain kind start declaredEnd count hdepth ?_ ?_ ?_
  · rwa [h.position_eq]
  · rwa [h.bound_eq hlevel]
  · exact Nat.le_trans hcount h.limits_le.2

theorem inStep_pop (kind : FrameKind) (hn : g.around.length ≤ n) :
    InStep g (n + 1) n (pop kind) (pop kind) := by
  intro c c' h hlevel
  unfold pop
  rw [h.frames_eq]
  cases hframes : c.frames with
  | nil =>
      rw [h.position_eq]
      exact .error _ (h.fault hlevel rfl rfl) h
  | cons frame outer =>
      have hframes' : c'.frames = frame :: outer := h.frames_eq.trans hframes
      have hclosed : frame.consumed = frame.count → (∀ e, frame.endsAt = some e → c.position = e) →
          Agree g n (.ok () (c.within outer)) (.ok () (c'.within outer)) := by
        intro hcount hend
        have hend' : ∀ e, frame.endsAt = some e → c'.position = e := fun e he =>
          h.position_eq.trans (hend e he)
        exact .ok () (h.within ((Move.close frame outer hframes hcount hend).coherent h.coherent)
          ((Move.close frame outer hframes' hcount hend').coherent h.coherent'))
            (hlevel.close hn hframes)
      by_cases hkind : frame.kind = kind
      case neg =>
        simp only [ne_eq, hkind, not_false_eq_true, if_true, h.position_eq]
        exact .error _ (h.fault hlevel rfl rfl) h
      by_cases hcount : frame.consumed = frame.count
      case neg =>
        simp only [ne_eq, hkind, hcount, not_true, not_false_eq_true, if_false, if_true,
          h.position_eq]
        exact .error _ (h.fault hlevel rfl rfl) h
      simp only [ne_eq, hkind, hcount, not_true, if_false]
      cases hend : frame.endsAt with
      | none => exact hclosed hcount (by simp [hend])
      | some e =>
          by_cases hposition : c.position = e
          · have hposition' := h.position_eq.trans hposition
            dsimp only
            rw [if_neg (not_not_intro hposition), if_neg (not_not_intro hposition')]
            exact hclosed hcount fun e' he' => Option.some.inj (hend ▸ he') ▸ hposition
          · simp only [h.position_eq, hposition, not_false_eq_true, if_true]
            exact .error _ (h.fault hlevel rfl rfl) h

theorem inStep_enterType (name : String) : InStep g n n (enterType name) (enterType name) :=
  fun _ _ h hlevel => .ok () (h.begin name) (hlevel.begin name)

/-- A probe comes back to where it was. -/
theorem inStep_probe {reader reader' : Decoding α} (hreader : InStep g n m reader reader') :
    InStep g n n (probe reader) (probe reader') := by
  intro c c' h hlevel
  have hread := hreader h hlevel
  unfold probe
  generalize reader c = first at hread
  generalize reader' c' = second at hread
  cases hread with
  | ok a _ _ => exact .ok a h hlevel
  | error e hfault _ => exact .error e hfault h
  | cut e hlimit hlimits => exact .cut e hlimit hlimits

theorem inStep_formatHere (what : String) : InStep g n n (formatHere what) (formatHere what) := by
  intro c c' h hlevel
  refine .asks ?_
  rw [h.position_eq]
  refine (inStep_take 1 what h hlevel).bind fun bytes c₁ c₁' _ h₁ hlevel₁ => ?_
  cases FormatCode.ofByte? (bytes.headD 0) with
  | none => exact InStep.mismatch (h.covers_position hlevel) h₁ hlevel₁
  | some format => exact .ok _ h₁ hlevel₁

theorem inStep_beginValue (what : String) : InStep g n n (beginValue what) (beginValue what) :=
  (inStep_claim what).bind fun _ => inStep_formatHere what

/-- The reader gives a format code and where it stands, and stops behind it. -/
def Leads (lead : Decoding (FormatCode × Nat)) : Prop :=
  ∀ ⦃c c₁ : Cursor⦄ ⦃format : FormatCode⦄ ⦃offset : Nat⦄, lead c = .ok (format, offset) c₁ →
    offset = c.position ∧ c₁.position = c.position + 1

theorem leads_formatHere (what : String) : Leads (formatHere what) := by
  intro c c₁ format offset h
  obtain ⟨-, -, rfl, rfl⟩ := formatHere_eq_ok_iff.mp h
  exact ⟨rfl, rfl⟩

theorem leads_beginValue (what : String) : Leads (beginValue what) := by
  intro c c₁ format offset h
  obtain ⟨_, c₂, hclaim, hformat⟩ := bind_eq_ok_iff.mp h
  obtain ⟨rfl, hposition⟩ := leads_formatHere what hformat
  rcases claim_eq_ok_iff.mp hclaim with ⟨-, rfl⟩ | ⟨frame, outer, -, -, rfl⟩
  · exact ⟨rfl, hposition⟩
  · exact ⟨rfl, hposition⟩

/-- What is known behind a format code: where the value began, and that it began on the
ground. -/
structure Led (g : Ground) (n : Nat) (offset : Nat) (c : Cursor) : Prop where
  covers : g.Covers offset
  position_eq : c.position = offset + 1
  covers_next : g.Covers (offset + 1)
  past : g.start + (n - g.around.length) < c.position

theorem agree_led {lead : Decoding (FormatCode × Nat)} {next next' : FormatCode × Nat → Decoding α}
    (hlead : InStep g n n lead lead) (hleads : Leads lead) (h : Abreast g c c')
    (hlevel : g.Level n c)
    (hnext : ∀ format offset c₁ c₁', Abreast g c₁ c₁' → g.Level n c₁ → Led g n offset c₁ →
      Agree g m (next (format, offset) c₁) (next' (format, offset) c₁')) :
    Agree g m ((lead >>= next) c) ((lead >>= next') c') := by
  refine (hlead h hlevel).bind fun ⟨format, offset⟩ c₁ c₁' hok h₁ hlevel₁ => ?_
  obtain ⟨rfl, hposition⟩ := hleads hok
  have hnextCovers := h₁.covers_position hlevel₁
  rw [hposition] at hnextCovers
  have hbehind := hlevel.behind
  exact hnext format _ c₁ c₁' h₁ hlevel₁
    ⟨h.covers_position hlevel, hposition, hnextCovers, by omega⟩

/-! ## Primitive values -/

/-- A text that is no UTF-8 is refused where its value begins. -/
theorem utf8_error {what : String} {payload : Bytes} {offset : Nat} {e : DecodeError}
    (h : Primitive.utf8 what payload offset = .error e) :
    e.isUnknown = false ∧ e.offset = offset := by
  unfold Primitive.utf8 at h
  split at h
  · cases h
  · cases h
    exact ⟨rfl, rfl⟩

/-- A payload is refused where its value begins or one byte behind. -/
theorem interpret_error {p : Primitive} {format : FormatCode} {payload : Bytes} {offset : Nat}
    {e : DecodeError} (h : p.interpret format payload offset = .error e) :
    e.isUnknown = false ∧ (e.offset = offset ∨ e.offset = offset + 1) := by
  cases p with
  | boolean =>
      simp only [Primitive.interpret] at h
      repeat' split at h
      all_goals cases h
      exact ⟨rfl, .inr rfl⟩
  | char =>
      simp only [Primitive.interpret] at h
      split at h
      · cases h
      · cases h
        exact ⟨rfl, .inr rfl⟩
  | string => exact (utf8_error h).imp_right .inl
  | symbol => exact (utf8_error h).imp_right .inl
  | _ => cases h

theorem inStep_payload (category : WidthCategory) (what : String) :
    InStep g n n (payload category what) (payload category what) := by
  unfold payload
  split
  · exact .pure _
  · exact inStep_take _ what
  all_goals exact (inStep_number _ what).bind fun _ => inStep_take _ what

theorem inStep_primitiveBody (p : Primitive) (format : FormatCode) {offset : Nat}
    (hoffset : g.Covers offset) (hnext : g.Covers (offset + 1)) :
    InStep g n n (primitiveBody p format offset) (primitiveBody p format offset) := by
  refine (inStep_payload _ _).bind fun bytes => ?_
  cases hvalue : p.interpret format bytes offset with
  | ok value => exact .pure _
  | error e =>
      obtain ⟨hunknown, hplace⟩ := interpret_error hvalue
      refine .throw ?_
      rcases hplace with hplace | hplace
      · exact g.fault_of e hunknown (hplace ▸ hoffset.1) (hplace ▸ hoffset.2)
      · exact g.fault_of e hunknown (hplace ▸ hnext.1) (hplace ▸ hnext.2)

theorem inStep_wrongFormat (expected : String) (format : FormatCode) {offset : Nat}
    (hoffset : g.Covers offset) :
    InStep g m n (wrongFormat expected format offset : Decoding α)
      (wrongFormat expected format offset) :=
  .mismatch hoffset

theorem inStep_read (p : Primitive) : InStep g n n (read p) (read p) := by
  intro c c' h hlevel
  refine agree_led (inStep_beginValue _) (leads_beginValue _) h hlevel
    fun format offset c₁ c₁' h₁ hlevel₁ hled => ?_
  dsimp only
  by_cases hformat : format.primitive? = some p
  · rw [if_pos hformat]
    exact inStep_primitiveBody p format hled.covers hled.covers_next h₁ hlevel₁
  · rw [if_neg hformat]
    exact inStep_wrongFormat _ _ hled.covers h₁ hlevel₁

theorem inStep_readScalar (p : Primitive) : InStep g n n (readScalar p) (readScalar p) :=
  (inStep_read p).bind fun _ => .pure _

/-! ## Described values -/

theorem inStep_rawDescriptor : InStep g n n rawDescriptor rawDescriptor := by
  intro c c' h hlevel
  refine agree_led (inStep_formatHere _) (leads_formatHere _) h hlevel
    fun format offset c₁ c₁' h₁ hlevel₁ hled => ?_
  have hbody : ∀ p, InStep g n n (primitiveBody p format offset) (primitiveBody p format offset) :=
    fun p => inStep_primitiveBody p format hled.covers hled.covers_next
  refine (?_ : InStep g n n _ _) h₁ hlevel₁
  dsimp only
  split
  · exact (hbody .symbol).bind fun _ => .pure _
  · exact (hbody .ulong).bind fun _ => .pure _
  · exact inStep_wrongFormat _ _ hled.covers

theorem inStep_peekDescriptor : InStep g n n peekDescriptor peekDescriptor := by
  intro c c' h hlevel
  unfold peekDescriptor
  rw [h.peekByte?_eq hlevel]
  by_cases hmarker : c.peekByte? = some FormatCode.described.toByte
  · rw [if_pos hmarker, if_pos hmarker]
    have hfits : 1 ≤ c.available := (available_pos_of_peekByte? hmarker).1
    have hread := inStep_rawDescriptor (h.pass hlevel hfits) (hlevel.advance 1)
    generalize rawDescriptor (c.advance 1) = first at hread
    generalize rawDescriptor (c'.advance 1) = second at hread
    cases hread with
    | ok raw _ _ => exact .ok _ h hlevel
    | error e hfault _ => exact .error e hfault h
    | cut e hlimit hlimits => exact .cut e hlimit hlimits
  · rw [if_neg hmarker, if_neg hmarker]
    exact .ok _ h hlevel

theorem inStep_beginDescribed : InStep g n (n + 1) beginDescribed beginDescribed := by
  intro c c' h hlevel
  refine agree_led (inStep_beginValue _) (leads_beginValue _) h hlevel
    fun format offset c₁ c₁' h₁ hlevel₁ hled => ?_
  dsimp only
  by_cases hformat : format = .described
  case neg =>
    rw [if_neg hformat]
    exact inStep_wrongFormat _ _ hled.covers h₁ hlevel₁
  rw [if_pos hformat]
  refine (inStep_rawDescriptor h₁ hlevel₁).bind fun raw c₂ c₂' hraw h₂ hlevel₂ => ?_
  -- The marker is the byte that the new level has taken.
  have hmoved := (walks_rawDescriptor c₁).position_le
  rw [after_of_ok hraw] at hmoved
  have hpast := Nat.lt_of_lt_of_le hled.past hmoved
  exact (agree_push_described h₂ hlevel₂ hled.covers hpast).bind
    fun _ _ _ _ h₃ hlevel₃ => .ok _ h₃ hlevel₃

theorem offset_of_beginDescribed {opening : Opening} {c₁ : Cursor}
    (h : beginDescribed c = .ok opening c₁) : opening.offset = c.position := by
  obtain ⟨⟨format, offset⟩, c₂, hbegin, h⟩ := bind_eq_ok_iff.mp h
  obtain ⟨rfl, -⟩ := leads_beginValue _ hbegin
  by_cases hformat : format = .described
  · simp only [hformat, if_true] at h
    obtain ⟨raw, c₃, -, h⟩ := bind_eq_ok_iff.mp h
    obtain ⟨_, c₄, -, h⟩ := bind_eq_ok_iff.mp h
    obtain ⟨rfl, -⟩ := pure_eq_ok_iff.mp h
    rfl
  · simp only [hformat, if_false] at h
    exact absurd h throw_ne_ok

theorem inStep_expectSymbol (expected : String) :
    InStep g n (n + 1) (expectSymbol expected) (expectSymbol expected) := by
  intro c c' h hlevel
  refine (inStep_beginDescribed h hlevel).bind fun opening c₁ c₁' hopen h₁ hlevel₁ => ?_
  have hoffset := offset_of_beginDescribed hopen
  unfold Opening.requireSymbol
  by_cases hsymbol : opening.raw = .symbol expected
  · rw [if_pos hsymbol]
    exact .ok _ h₁ hlevel₁
  · rw [if_neg hsymbol]
    exact .error _ (h.fault hlevel rfl hoffset) h₁

/-! ## Lists and maps -/

theorem inStep_elementCount (width : Nat) (what : String) (declaredEnd : Nat) {sizeOffset : Nat}
    (hoffset : g.Covers sizeOffset) :
    InStep g n n (elementCount width what declaredEnd sizeOffset)
      (elementCount width what declaredEnd sizeOffset) := by
  refine (inStep_number width what).bind fun count c c' h hlevel => ?_
  refine .get ?_
  rw [h.position_eq]
  by_cases hmany : c.limits.maxCollectionLength < count
  · rw [if_pos hmany]
    by_cases hlimits : g.limits = g.limits'
    · rw [h.limits_same hlimits, if_pos hmany]
      exact InStep.limitExceeded hoffset h hlevel
    · exact .cut _ rfl hlimits
  · have hmany' : ¬ c'.limits.maxCollectionLength < count := by
      have hle := h.limits_le.2
      omega
    rw [if_neg hmany, if_neg hmany']
    split
    · exact InStep.mismatch hoffset h hlevel
    · exact .ok count h hlevel

theorem inStep_compoundHeader (width : Nat) (what : String) :
    InStep g n n (compoundHeader width what) (compoundHeader width what) := by
  intro c c' h hlevel
  refine .asks ?_
  rw [h.position_eq]
  have hoffset := h.covers_position hlevel
  refine (inStep_number width what h hlevel).bind fun size c₁ c₁' _ h₁ hlevel₁ => .get ?_
  rw [h₁.available_eq hlevel₁, h₁.position_eq]
  repeat' split
  · exact InStep.mismatch hoffset h₁ hlevel₁
  · exact InStep.mismatch (h₁.covers_position hlevel₁) h₁ hlevel₁
  · exact (inStep_elementCount _ _ _ hoffset).bind (fun _ => .pure _) h₁ hlevel₁

theorem inStep_listHeader (format : FormatCode) {offset : Nat} (hoffset : g.Covers offset) :
    InStep g n n (listHeader format offset) (listHeader format offset) := by
  unfold listHeader
  split
  · intro c c' h hlevel
    refine .asks ?_
    rw [h.position_eq]
    exact .ok _ h hlevel
  · exact inStep_compoundHeader _ _
  · exact inStep_compoundHeader _ _
  · exact inStep_wrongFormat _ _ hoffset

theorem inStep_mapHeader (format : FormatCode) {offset : Nat} (hoffset : g.Covers offset) :
    InStep g n n (mapHeader format offset) (mapHeader format offset) := by
  unfold mapHeader
  split
  · exact inStep_compoundHeader _ _
  · exact inStep_compoundHeader _ _
  · exact inStep_wrongFormat _ _ hoffset

theorem inStep_enterList : InStep g n (n + 1) enterList enterList := by
  intro c c' h hlevel
  refine agree_led (inStep_beginValue _) (leads_beginValue _) h hlevel
    fun format offset c₁ c₁' h₁ hlevel₁ hled => ?_
  refine (inStep_listHeader format hled.covers h₁ hlevel₁).bind
    fun ⟨declaredEnd, count⟩ c₂ c₂' hheader h₂ hlevel₂ => ?_
  have hmoved := (walks_listHeader format offset c₁).position_le
  rw [after_of_ok hheader] at hmoved
  obtain ⟨hlow, hend, hcount⟩ := listHeader_between h₁.coherent.position_le_bound hheader
  exact (agree_push_container h₂ hlevel₂ hled.covers (Nat.lt_of_lt_of_le hled.past hmoved)
    hlow hend hcount).bind fun _ _ _ _ h₃ hlevel₃ => .ok _ h₃ hlevel₃

theorem inStep_enterMap : InStep g n (n + 1) enterMap enterMap := by
  intro c c' h hlevel
  refine agree_led (inStep_beginValue _) (leads_beginValue _) h hlevel
    fun format offset c₁ c₁' h₁ hlevel₁ hled => ?_
  refine (inStep_mapHeader format hled.covers h₁ hlevel₁).bind
    fun ⟨declaredEnd, count⟩ c₂ c₂' hheader h₂ hlevel₂ => ?_
  have hmoved := (walks_mapHeader format offset c₁).position_le
  rw [after_of_ok hheader] at hmoved
  obtain ⟨hlow, hend, hcount⟩ := mapHeader_between hheader
  dsimp only
  split
  · exact (agree_push_container h₂ hlevel₂ hled.covers (Nat.lt_of_lt_of_le hled.past hmoved)
      hlow hend hcount).bind fun _ _ _ _ h₃ hlevel₃ => .ok _ h₃ hlevel₃
  · exact InStep.mismatch hled.covers h₂ hlevel₂

/-! ## Composites and repetition -/

theorem inStep_enterComposite : InStep g n (n + 2) enterComposite enterComposite :=
  inStep_beginDescribed.bind fun _ => inStep_enterList.bind fun _ => .pure _

theorem inStep_exitComposite (hn : g.around.length ≤ n) :
    InStep g (n + 2) n exitComposite exitComposite :=
  (inStep_pop .list (Nat.le_succ_of_le hn)).bind fun _ => inStep_pop .described hn

theorem inStep_collect {reader reader' : Decoding α} (hreader : InStep g n n reader reader')
    (count : Nat) (done : List α) :
    InStep g n n (collect reader count done) (collect reader' count done) := by
  induction count generalizing done with
  | zero => exact .pure _
  | succ count ih => exact hreader.bind fun item => ih (item :: done)

theorem inStep_listOf {reader reader' : Decoding α}
    (hreader : InStep g (n + 1) (n + 1) reader reader') :
    InStep g n n (listOf reader) (listOf reader') := by
  intro c c' h hlevel
  have hlist : InStep g n n (listOf reader) (listOf reader') :=
    inStep_enterList.bind fun count => (inStep_collect hreader count []).bind fun _ =>
      (inStep_pop .list hlevel.around_length_le).bind fun _ => .pure _
  exact hlist h hlevel

theorem inStep_nullable {reader reader' : Decoding α} (hreader : InStep g n n reader reader') :
    InStep g n n (nullable reader) (nullable reader') := by
  intro c c' h hlevel
  refine .asks ?_
  rw [h.atNull_eq hlevel]
  split
  · exact (inStep_read .null).bind (fun _ => .pure _) h hlevel
  · exact hreader.bind (fun _ => .pure _) h hlevel

/-! ## Skipping -/

/-- More room for nesting makes a difference only where the limits differ. -/
theorem inStep_skipBody {room room' : Nat} (hroom : room ≤ room')
    (hsame : g.limits = g.limits' → room' = room) (depth : Nat) :
    InStep g n n (skipBody room depth) (skipBody room' depth) := by
  induction room generalizing room' depth with
  | zero =>
      intro c c' h hlevel
      unfold skipBody
      refine agree_led (inStep_formatHere _) (leads_formatHere _) h hlevel
        fun format offset c₁ c₁' h₁ hlevel₁ hled => ?_
      cases hcategory : format.category with
      | described =>
          -- No room is left for the value behind the marker.
          simp only [hcategory]
          by_cases hlimits : g.limits = g.limits'
          · obtain rfl := hsame hlimits
            refine .asks ?_
            rw [h₁.limits_same hlimits]
            exact InStep.limitExceeded hled.covers h₁ hlevel₁
          · exact .cut _ rfl hlimits
      | _ =>
        simp only [hcategory]
        exact (inStep_payload _ _).bind (fun _ => .pure _) h₁ hlevel₁
  | succ room ih =>
      obtain ⟨more, rfl⟩ : ∃ more, room' = more + 1 := ⟨room' - 1, by omega⟩
      intro c c' h hlevel
      unfold skipBody
      refine agree_led (inStep_formatHere _) (leads_formatHere _) h hlevel
        fun format offset c₁ c₁' h₁ hlevel₁ hled => ?_
      have hinner : ∀ depth, InStep g n n (skipBody room depth) (skipBody more depth) :=
        ih (Nat.le_of_succ_le_succ hroom) fun hlimits => Nat.succ.inj (hsame hlimits)
      cases hcategory : format.category with
      | described =>
          simp only [hcategory]
          exact (hinner (depth + 1)).bind (fun _ => hinner (depth + 1)) h₁ hlevel₁
      | _ =>
        simp only [hcategory]
        exact (inStep_payload _ _).bind (fun _ => .pure _) h₁ hlevel₁

theorem inStep_skip : InStep g n n skip skip := by
  refine (inStep_claim _).bind fun _ c c' h hlevel => .get ?_
  rw [h.depth_eq]
  refine inStep_skipBody (Nat.sub_le_sub_right h.limits_le.1 _) (fun hlimits => ?_) _ h hlevel
  rw [h.limits_same hlimits]

/-- What was skipped lies before the bound, so the bytes of it are the same. -/
theorem inStep_capture : InStep g n n capture capture := by
  intro c c' h hlevel
  have hskip := inStep_skip h hlevel
  unfold capture
  cases hfirst : skip c with
  | ok value after =>
      cases hsecond : skip c' with
      | ok value' after' =>
          rw [hfirst, hsecond] at hskip
          cases hskip with
          | ok _ h₁ hlevel₁ =>
            dsimp only
            have hend := h₁.coherent.position_le_bound
            have hbound := h₁.bound_le hlevel₁
            have hsame := congrArg (List.take (after.position - c.position)) h.same_bytes
            rw [List.take_take, List.take_take, Nat.min_eq_left (by omega)] at hsame
            rw [h₁.position_eq, h.position_eq, hsame]
            exact .ok _ h₁ hlevel₁
      | error e' after' =>
          rw [hfirst, hsecond] at hskip
          cases hskip
  | error e after =>
      rw [hfirst] at hskip
      generalize skip c' = second at hskip
      cases hskip with
      | error _ hfault h₁ => exact .error e hfault h₁
      | cut _ hlimit hlimits => exact .cut e hlimit hlimits

end Cursor

end AmqpEnvelope
