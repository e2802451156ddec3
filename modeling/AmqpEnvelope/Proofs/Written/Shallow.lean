import AmqpEnvelope.Proofs.Decode.Reachable
import AmqpEnvelope.Proofs.Written.Form

/-!
# Shallow values

What skipping takes for a value, byte for byte.  Only sizes are looked at: a code of fixed width
is followed by so many bytes, other codes by a length and as many bytes as it says, whatever these
are, and the marker of a described value by two values, one level deeper.

* `Shallow` writes this down from the codes alone; `shallow_iff_extent` compares it with what the
  categories of the format codes say.
* `Cursor.Reachable.skip_iff_shallow`: skipping and capturing accept one such value before the
  innermost declared end, and nothing else.
-/

namespace AmqpEnvelope

open Cursor

namespace Written

/-- The codes with a fixed number of bytes behind them. -/
def fixedForms : Forms :=
  [(0x40, 0), (0x41, 0), (0x42, 0), (0x43, 0), (0x44, 0), (0x45, 0),
    (0x50, 1), (0x51, 1), (0x52, 1), (0x53, 1), (0x54, 1), (0x55, 1), (0x56, 1),
    (0x60, 2), (0x61, 2),
    (0x70, 4), (0x71, 4), (0x72, 4), (0x73, 4), (0x74, 4),
    (0x80, 8), (0x81, 8), (0x82, 8), (0x83, 8), (0x84, 8),
    (0x94, 16), (0x98, 16)]

/-- The codes with a length behind them. -/
def countedForms : Forms :=
  binaryForms ++ stringForms ++ symbolForms ++ listForms ++ mapForms ++ arrayForms

/-- One value, of which only the size matters, at a nesting of `depth`. -/
inductive Shallow (maxDepth : Nat) : (depth : Nat) → Bytes → Prop
  | fixed {depth : Nat} {content bytes : Bytes} (h : Fixed fixedForms content bytes) :
      Shallow maxDepth depth bytes
  | counted {depth : Nat} {content bytes : Bytes} (h : Sized countedForms content bytes) :
      Shallow maxDepth depth bytes
  | described {depth : Nat} {descriptor body : Bytes} (hdepth : depth < maxDepth)
      (hdescriptor : Shallow maxDepth (depth + 1) descriptor)
      (hbody : Shallow maxDepth (depth + 1) body) :
      Shallow maxDepth depth (0x00 :: (descriptor ++ body))

/-! ## Codes and their categories -/

/-- Every code but the marker is listed with the width that its category gives it. -/
theorem form_of_code (format : FormatCode) : format = .described ∨
    (∃ width, format.category = .fixed width ∧ (format.toByte, width) ∈ fixedForms) ∨
    ∃ width, (∀ bytes content, Payload format.category bytes content ↔
      Counted width content bytes) ∧ (format.toByte, width) ∈ countedForms := by
  cases format <;> first
    | exact .inl rfl
    | exact .inr (.inl ⟨_, rfl, by decide⟩)
    | exact .inr (.inr ⟨_, fun _ _ => Iff.rfl, by decide⟩)

theorem code_of_fixedForm {form : UInt8 × Nat} (hform : form ∈ fixedForms) :
    ∃ format : FormatCode, form.1 = format.toByte ∧ format.category = .fixed form.2 := by
  obtain ⟨format, hbyte, hcategory⟩ :=
    exists_code_of_forms (fun format width => format.category == .fixed width) (by decide) hform
  exact ⟨format, hbyte, beq_iff_eq.mp hcategory⟩

theorem code_of_countedForm {form : UInt8 × Nat} (hform : form ∈ countedForms) :
    ∃ format : FormatCode, form.1 = format.toByte ∧ format.category ≠ .described ∧
      ∀ bytes content, Counted form.2 content bytes → Payload format.category bytes content := by
  obtain ⟨format, hbyte, hcategory⟩ := exists_code_of_forms (fun format width =>
    format.category == .variable width || format.category == .compound width ||
      format.category == .array width) (by decide) hform
  refine ⟨format, hbyte, ?_⟩
  simp only [Bool.or_eq_true, beq_iff_eq] at hcategory
  rcases hcategory with (hcategory | hcategory) | hcategory <;> rw [hcategory]
  all_goals exact ⟨nofun, fun _ _ hcounted => hcounted⟩

/-! ## Shallow values and extents -/

theorem shallow_of_extent {maxDepth depth room : Nat} {bytes : Bytes} (h : Extent room bytes)
    (hroom : depth + room = maxDepth) : Shallow maxDepth depth bytes := by
  induction h generalizing depth with
  | @sized room format bytes content hcategory hpayload =>
      rcases form_of_code format with rfl | ⟨width, hwidth, hform⟩ | ⟨width, hwidth, hform⟩
      · exact absurd rfl hcategory
      · rw [hwidth] at hpayload
        obtain ⟨rfl, hlength⟩ := hpayload
        exact .fixed ⟨_, hform, rfl, hlength⟩
      · exact .counted ⟨_, hform, bytes, rfl, (hwidth bytes content).mp hpayload⟩
  | described _ _ ihdescriptor ihbody =>
      -- The room that is taken by the marker is the level that is gone down.
      exact .described (by omega) (ihdescriptor (by omega)) (ihbody (by omega))

theorem Shallow.extent {maxDepth depth : Nat} {bytes : Bytes} (h : Shallow maxDepth depth bytes) :
    Extent (maxDepth - depth) bytes := by
  induction h with
  | fixed h =>
      obtain ⟨form, hform, rfl, hlength⟩ := h
      obtain ⟨format, hbyte, hcategory⟩ := code_of_fixedForm hform
      rw [hbyte]
      apply Extent.sized
      · rw [hcategory]
        exact nofun
      · rw [hcategory]
        exact ⟨rfl, hlength⟩
  | counted h =>
      obtain ⟨form, hform, rest, rfl, hcounted⟩ := h
      obtain ⟨format, hbyte, hcategory, hpayload⟩ := code_of_countedForm hform
      rw [hbyte]
      exact .sized hcategory (hpayload _ _ hcounted)
  | @described depth descriptor body hdepth _ _ ihdescriptor ihbody =>
      have hroom : maxDepth - depth = maxDepth - (depth + 1) + 1 := by omega
      rw [hroom]
      exact .described ihdescriptor ihbody

/-- The room for nesting is what the depth leaves of the bound. -/
theorem shallow_iff_extent {maxDepth depth : Nat} {bytes : Bytes} (hdepth : depth ≤ maxDepth) :
    Shallow maxDepth depth bytes ↔ Extent (maxDepth - depth) bytes :=
  ⟨Shallow.extent, fun h => shallow_of_extent h (by omega)⟩

end Written

/-! ## Skipping and capturing -/

namespace Cursor

open Written

/-- The next `n` bytes of the input are a value, and end before the innermost declared end. -/
def FormsValue (bytes : Bytes) (c : Cursor) (n : Nat) : Prop :=
  c.position + n ≤ c.bound ∧
    Shallow c.limits.maxDepth c.depth ((bytes.drop c.position).take n)

/-- Bytes before the bound are offered as an element, if there is one left. -/
theorem Coherent.offers_take {c : Cursor} (hc : c.Coherent) {n : Nat}
    (hn : c.position + n ≤ c.bound)
    (hspare : ∀ frame outer, c.frames = frame :: outer → frame.consumed < frame.count) :
    (c.unread.take n).length = n ∧ c.Offers 1 (c.unread.take n) := by
  have hfits : n ≤ c.available := by
    unfold available
    omega
  have hlength : (c.unread.take n).length = n := by
    have hunread := hc.available_le_length
    rw [List.length_take]
    omega
  refine ⟨hlength, ?_, List.take_prefix n _, hspare⟩
  rw [hlength]
  exact hfits

/-- What is passed are the bytes up to the place that is reached. -/
theorem Passes.take_eq {c after : Cursor} {m n : Nat} {bs : Bytes} (h : c.Passes m bs after)
    (hposition : after.position = c.position + n) : c.unread.take n = bs ∧ n = bs.length := by
  rw [h.2, past_position] at hposition
  obtain rfl : n = bs.length := by omega
  exact ⟨h.1.take_eq, rfl⟩

/-- A reader of one extent, whatever it makes of the bytes, goes on by `n` bytes exactly if these
are an extent before the bound. -/
theorem Coherent.exists_passed_iff {α : Type} {c : Cursor} (hc : c.Coherent) (view : Bytes → α)
    {reader : Decoding α} {g : Grammar α} (hreads : ReadsAt c reader g)
    (hg : ∀ m bs value, g c.allowance m bs value ↔
      m = 1 ∧ Extent c.allowance.maxDepth bs ∧ value = view bs)
    (hspare : ∀ frame outer, c.frames = frame :: outer → frame.consumed < frame.count) {n : Nat}
    {value : α} :
    (∃ after, reader c = .ok value after ∧ after.position = c.position + n) ↔
      (c.position + n ≤ c.bound ∧ Extent c.allowance.maxDepth (c.unread.take n)) ∧
        value = view (c.unread.take n) := by
  constructor
  · rintro ⟨after, hread, hposition⟩
    obtain ⟨m, bs, hvalue, hpasses⟩ := hreads.sound hread
    obtain ⟨rfl, hextent, rfl⟩ := (hg m bs value).mp hvalue
    obtain ⟨htake, rfl⟩ := hpasses.take_eq hposition
    have hfits := hpasses.1.fits
    have hbound := hc.position_le_bound
    unfold available at hfits
    rw [htake]
    exact ⟨⟨by omega, hextent⟩, rfl⟩
  · rintro ⟨⟨hn, hextent⟩, rfl⟩
    obtain ⟨hlength, hoffers⟩ := hc.offers_take hn hspare
    obtain ⟨after, hread, hpasses⟩ :=
      hreads.complete (Limits.le_refl _) ((hg _ _ _).mpr ⟨rfl, hextent, rfl⟩) hoffers
    refine ⟨after, hread, ?_⟩
    rw [hpasses.2, past_position, hlength]

/-- **Skipping accepts one shallow value.**  Where another element may be claimed, skipping
succeeds and goes on by `n` bytes exactly if these are a value and lie before the innermost
declared end.  There is no choice in `n`, and capturing answers with those bytes. -/
theorem Reachable.skip_iff_shallow {bytes : Bytes} {limits : Limits} {c : Cursor}
    (hc : Reachable bytes limits c)
    (hspare : ∀ frame outer, c.frames = frame :: outer → frame.consumed < frame.count) :
    (∀ n, (∃ after, skip c = .ok () after ∧ after.position = c.position + n) ↔
      FormsValue bytes c n) ∧
    (∀ m n, FormsValue bytes c m → FormsValue bytes c n → m = n) ∧
    ∀ n captured, (∃ after, capture c = .ok captured after ∧ after.position = c.position + n) ↔
      FormsValue bytes c n ∧ captured = (bytes.drop c.position).take n := by
  have hcoherent := hc.coherent
  have hroom : ∀ n, FormsValue bytes c n ↔ c.position + n ≤ c.bound ∧
      Extent c.allowance.maxDepth (c.unread.take n) := by
    intro n
    rw [FormsValue, hc.unread_eq]
    exact and_congr_right fun _ => shallow_iff_extent hcoherent.depth_le
  refine ⟨?_, ?_, ?_⟩
  · intro n
    have hextent : ∀ m bs (value : Unit), Grammar.extent c.allowance m bs value ↔
        m = 1 ∧ Extent c.allowance.maxDepth bs ∧ value = () := by
      simp [Grammar.extent]
    rw [hcoherent.exists_passed_iff (fun _ => ()) (readsAt_skip hcoherent) hextent hspare, hroom]
    exact and_iff_left rfl
  · intro m n hm hn
    obtain ⟨hmbound, hmextent⟩ := (hroom m).mp hm
    obtain ⟨hnbound, hnextent⟩ := (hroom n).mp hn
    have hsame : c.unread.take m = c.unread.take n := by
      apply hmextent.unique hnextent
      rw [List.take_append_drop, List.take_append_drop]
    have hlength := congrArg List.length hsame
    rwa [(hcoherent.offers_take hmbound hspare).1, (hcoherent.offers_take hnbound hspare).1]
      at hlength
  · intro n captured
    rw [hroom, ← hc.unread_eq]
    exact hcoherent.exists_passed_iff id (readsAt_capture hcoherent) (fun _ _ _ => Iff.rfl) hspare

/-- A described value whose descriptor is described as well, in a list: with room for both levels
it is skipped, and with one level less it is not. -/
theorem described_descriptor_skipped :
    let bytes : Bytes := [0xc0, 0x06, 0x01, 0x00, 0x00, 0x40, 0x40, 0x41]
    let inList := fun maxDepth : Nat =>
      after ((Registry.empty Settings.standard).runStep .enterList)
        (Cursor.start bytes ⟨maxDepth, 1⟩)
    (∃ after, skip (inList 3) = .ok () after ∧ after.position = 3 + 5) ∧
      (∀ n, FormsValue bytes (inList 3) n → n = 5) ∧ ∀ n, ¬ FormsValue bytes (inList 2) n := by
  intro bytes inList
  have hreachable : ∀ maxDepth, Reachable bytes ⟨maxDepth, 1⟩ (inList maxDepth) :=
    fun maxDepth => .step _ _ .start
  have hwide := (hreachable 3).skip_iff_shallow (by rintro _ _ ⟨⟩; decide)
  have hnarrow := (hreachable 2).skip_iff_shallow (by rintro _ _ ⟨⟩; decide)
  have hnull : Shallow 3 3 [0x40] := .fixed ⟨(0x40, 0), by decide, rfl, rfl⟩
  have htrue : Shallow 3 2 [0x41] := .fixed ⟨(0x41, 0), by decide, rfl, rfl⟩
  have hvalue : FormsValue bytes (inList 3) 5 :=
    ⟨by decide, .described (by decide) (.described (by decide) hnull hnull) htrue⟩
  refine ⟨(hwide.1 5).mpr hvalue, fun n hn => hwide.2.1 n 5 hn hvalue, fun n hn => ?_⟩
  have hrefused : (match skip (inList 2) with | .ok _ _ => true | .error _ _ => false) = false := by
    decide +kernel
  obtain ⟨after, hskip, -⟩ := (hnarrow.1 n).mpr hn
  rw [hskip] at hrefused
  cases hrefused

end Cursor

end AmqpEnvelope
