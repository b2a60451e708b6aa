import Bytesmith.Proofs.Agreement

namespace Bytesmith.Build

open Code Outcome

variable {p : Project} {issued : List (Nat × Variable)} {m : Nat} {t : MethodDef} {d : Draft}

/-- The receiver, the parameters in their order and the locals have slots of their own, which the
frame of a call has. -/
structure Draft.SlotsApart (d : Draft) (m : Nat) (t : MethodDef) : Prop where
  receiver : t.attrs.isStatic = false → ∃ v, d.this m = .ok v ∧ v.slot? = some 0
  params : ∀ i < t.params.length, ∃ v index, d.param m i = .ok v ∧ v.slot? = some index ∧
    index.toNat = i + if t.attrs.isStatic then 0 else 1
  apart : ((d.cells m t).map Variable.slot?).Nodup
  below : ∀ v ∈ d.cells m t, ∃ index, v.slot? = some index ∧ index.toNat < t.emitter.localCount

theorem Slotted.nodup_slots {vars : List Variable} (h : Slotted vars) :
    (vars.map Variable.slot?).Nodup := by
  refine List.Nodup.map_on (fun v hv w hw hslot => ?_) h.nodup
  obtain ⟨_, i, _, _, rfl, hi⟩ := h.exists_slot hv
  obtain ⟨_, j, _, _, rfl, hj⟩ := h.exists_slot hw
  obtain rfl : i = j := Option.some.inj hslot
  exact Option.some.inj (hi.symm.trans hj)

theorem Draft.slotsApart_of_slotted (ht : d.methods[m]? = some t)
    (howner : ∃ type, d.types[t.owner]? = some type) (hfew : t.paramCount ≤ 65536)
    (hcount : (d.cells m t).length ≤ t.emitter.localCount) (hslots : Slotted (d.cells m t)) :
    d.SlotsApart m t where
  receiver hstatic := by
    obtain ⟨type, htype⟩ := howner
    exact ⟨_, (this_eq_ok ht).mpr ⟨hstatic, type, htype, rfl⟩, rfl⟩
  params i hi := by
    refine ⟨_, _, (param_eq_ok ht).mpr ⟨_, List.getElem?_eq_getElem hi, rfl⟩, rfl, ?_⟩
    rw [MethodDef.paramCount, MethodDef.slotCount] at hfew
    cases hstatic : t.attrs.isStatic <;> simp [hstatic] at hfew ⊢ <;> omega
  apart := hslots.nodup_slots
  below v hv := by
    obtain ⟨_, index, _, _, rfl, hplace⟩ := hslots.exists_slot hv
    exact ⟨index, rfl, Nat.lt_of_lt_of_le (List.getElem?_eq_some_iff.mp hplace).1 hcount⟩

theorem Draft.SlotsApart.paramCount_le (h : d.SlotsApart m t) : t.paramCount ≤ 65536 := by
  by_contra hmany
  rw [MethodDef.paramCount, MethodDef.slotCount] at hmany
  have hone : (if t.attrs.isStatic then 0 else 1) ≤ 1 := by split <;> decide
  obtain ⟨_, index, -, -, hindex⟩ := h.params (65536 - if t.attrs.isStatic then 0 else 1) (by omega)
  have hlt := index.toNat_lt
  omega

/-- Each variable of a body has the slot of its place, cut to sixteen bits. No local is cut. The slots
are apart unless the parameters alone are too many. All slots are those of variables, unless an
operation failed when it had made one. -/
theorem Session.slotsApart_iff (h : Session Anything p issued)
    (ht : p.draft.methods[m]? = some t) :
    (p.draft.SlotsApart m t ↔ t.paramCount ≤ 65536) ∧
    (∀ (k : Nat) (v : Variable), (p.draft.cells m t)[k]? = some v →
      (∃ name ty, v = .slot m k.toUInt16 name ty) ∧ (t.paramCount ≤ k → k < 65536)) ∧
    (t.emitter.localCount = (p.draft.cells m t).length ∨
      t.state = .aborted ∧ t.emitter.localCount = (p.draft.cells m t).length + 1) ∧
    ∀ body, t.state = .finished body → body.localCount = (p.draft.cells m t).length := by
  obtain ⟨_, hcourse, -⟩ := h.course
  obtain ⟨t₀, code, hstems⟩ := h.stems ht
  have howner := hcourse.owner m t ht
  have hparams := MethodDef.paramCount_of_declaration hstems.declaration
  obtain ⟨hlength, hcells⟩ := hstems.history.cells_spec ht howner hparams hstems.results_eq
  have hcount := hstems.localCount
  have hslots := hstems.slots_le
  rw [hstems.history.results.1, ← hlength] at hcount
  rw [hstems.slots_eq, hstems.history.results.1, ← hlength] at hslots
  refine ⟨⟨Draft.SlotsApart.paramCount_le, fun hfew => ?_⟩, hparams ▸ hcells, hcount,
    fun body hbody => ?_⟩
  · exact Draft.slotsApart_of_slotted ht howner hfew hslots
      (hstems.history.slotted ht hfew howner hparams hstems.results_eq).2
  · rw [(hcourse.settled ht (.refl _)).localCount_eq hbody, hstems.slots_eq,
      hstems.history.results.1, hlength]

/-- A method with a receiver, two parameters, a local and a result that is put into it. -/
def adding : List Request := [
  .perform (.defineType "Shape" {} none []),
  .perform (.defineMethod 0 "add" {} .int [⟨"left", .int⟩, ⟨"right", .int⟩]),
  .perform (.edit 0 (.createLocal "sum" .int)),
  .perform (.edit 0 (.arithmetic .add (.slot 0 1 "left" .int) (.slot 0 2 "right" .int))),
  .perform (.edit 0 (.ret (.slot 0 3 "sum" .int))),
  .perform (.finalize 0)]

theorem Session.slotsApart_iff_adding : ∃ p issued t,
    (Request.makeAll adding (⟨.empty "Shapes" {}, .empty⟩, [])).1 = p ∧ Session Anything p issued ∧
    p.draft.methods[0]? = some t ∧ t.emitter.localCount = 5 ∧ p.draft.SlotsApart 0 t := by
  obtain ⟨_, issued, t, rfl, h, ht, hcount, hfew⟩ := Session.exists_makeAll adding "Shapes" 0
    (fun t => t.emitter.localCount = 5 ∧ t.paramCount ≤ 65536) (by decide +kernel)
  exact ⟨_, issued, t, rfl, h, ht, hcount, (h.slotsApart_iff ht).1.mpr hfew⟩

def lengthening (count : Nat) : List Parameter :=
  (List.range count).map fun k => ⟨.ofList (.replicate (k + 1) 'p'), .int⟩

theorem checkParams_lengthening (count : Nat) : Draft.checkParams (lengthening count) = .ok () := by
  refine BuildM.checkParams_eq_ok.mpr ⟨?_, fun p hp => ?_⟩
  · rw [lengthening, List.map_map]
    refine List.Nodup.map_on (fun i _ j _ hij => ?_) List.nodup_range
    have hlength := congrArg String.length hij
    simpa using hlength
  · obtain ⟨k, -, rfl⟩ := List.mem_map.mp hp
    refine ⟨?_, rfl, fun hthis => ?_⟩
    · have hblank : Text.isBlank 'p' = false := by decide
      simp [Text.isBlankText, hblank]
    · have hhead := congrArg (fun s : String => s.toList.head?) hthis
      simp [List.replicate_succ] at hhead

theorem Session.exists_lengthening (count : Nat) : ∃ p issued, ∃ t : MethodDef,
    Session Anything p issued ∧ p.draft.methods[0]? = some t ∧ t.state = .open ∧
    t.attrs.isStatic = false ∧ t.params = lengthening count := by
  obtain ⟨issued, h⟩ := Session.of_makeAll [.perform (.defineType "Shape" {} none [])] "Shapes" {}
  generalize hp : (Request.makeAll [.perform (.defineType "Shape" {} none [])]
    (⟨.empty "Shapes" {}, .empty⟩, [])).1 = p at h
  have hfacts : (p.draft.openType 0).toOption.any (fun t => decide (t.attrs.isInterface = false ∧
      p.draft.ownNames t = [] ∧ t.methods = [] ∧ p.draft.methods.size = 0)) = true := by
    rw [← hp]
    decide +kernel
  obtain ⟨t, ht, hfacts⟩ := (Option.any_eq_true ..).mp hfacts
  obtain ⟨hclass, hnames, hmethods, hsize⟩ := of_decide_eq_true hfacts
  have hname : Text.isBlankText "scale" = false ∧ "scale" ≠ constructorName := by decide
  have hint : StaticType.int ≠ .null := by decide
  have hdefine := (BuildM.defineMethod_eq_ok_iff (Draft.toOption_eq_some.mp ht) hclass).mpr
    ⟨⟨hname.1, hname.2, hint, checkParams_lengthening count, by simp [hnames],
      by simp [hmethods, Draft.signatures, gather]⟩, rfl, rfl⟩
  let scale : MethodDef := .start 0 "scale" { isPublic := true } .int (lengthening count) false
  have hfound : (p.draft.extend 0 [] [scale] []).methods[p.draft.methods.size + 0]? = some scale :=
    Draft.found_extend rfl
  rw [hsize] at hfound
  exact ⟨_, _, _, h.done (.defineMethod 0 "scale" { isPublic := true } .int (lengthening count))
    (fun _ ho => absurd ho List.not_mem_nil) (map_eq_ok.mpr ⟨_, hdefine, rfl⟩), hfound, rfl, rfl,
    rfl⟩

/-- The last of so many parameters has the slot of the receiver. -/
theorem Session.param_shares_receiver : ∃ p issued t v w, Session Anything p issued ∧
    p.draft.methods[0]? = some t ∧ t.state ≠ .aborted ∧ p.draft.this 0 = .ok v ∧
    p.draft.param 0 65535 = .ok w ∧ v ≠ w ∧ v.slot? = w.slot? ∧ ¬ p.draft.SlotsApart 0 t := by
  obtain ⟨p, issued, t, h, ht, hopen, hstatic, hparams⟩ := Session.exists_lengthening 65536
  obtain ⟨_, hcourse, -⟩ := h.course
  obtain ⟨type, htype⟩ := hcourse.owner 0 t ht
  have hlast : t.params[65535]? = some ⟨.ofList (.replicate 65536 'p'), .int⟩ := by
    rw [hparams, lengthening, List.getElem?_map, List.getElem?_range (by decide)]
    rfl
  have hwrap : 0 = (if t.attrs.isStatic then 0 else 1) + (65535 : Nat).toUInt16 := by
    rw [hstatic]
    decide
  refine ⟨p, issued, t, _, _, h, ht, by simp [hopen],
    (Draft.this_eq_ok ht).mpr ⟨hstatic, type, htype, rfl⟩,
    (Draft.param_eq_ok ht).mpr ⟨_, hlast, rfl⟩, fun hsame => ?_, congrArg some hwrap,
    fun happart => ?_⟩
  · cases (Variable.slot.inj hsame).2.2.2
  · have hfew := happart.paramCount_le
    simp [MethodDef.paramCount, MethodDef.slotCount, hstatic, hparams, lengthening] at hfew

end Bytesmith.Build
