import Bytesmith.Proofs.Creation
import Bytesmith.Proofs.Frames

namespace Bytesmith.Build

open Code Outcome Machine

/-- Nothing is open in the code, and control cannot reach its end. -/
structure Emitter.Closed (e : Emitter) : Prop where
  sane : Sane [] e
  regions : e.regions = []
  last : ∃ i, e.code.toList.getLast? = some i ∧ i.opcode.isTerminator = true
  marks : ∀ l p, (l, p) ∈ e.marks → p < e.offset

namespace Emitter

variable {e : Emitter}

theorem closed_of_not_canFallThrough (hs : Sane [] e) (hr : e.regions = [])
    (h : e.canFallThrough = false) : e.Closed := by
  rw [canFallThrough, ← Array.getLast?_toList] at h
  cases hlast : e.code.toList.getLast? with
  | none =>
    rw [hlast] at h
    cases h
  | some i =>
    simp only [hlast, Bool.or_eq_false_iff, Bool.not_eq_false'] at h
    refine ⟨hs, hr, ⟨i, hlast, h.1⟩, fun l p hp => ?_⟩
    have hle := (hs.marks l p hp).le
    rw [← e.offset_eq] at hle
    have hne := List.any_eq_false.mp h.2 (l, p) hp
    rw [beq_iff_eq] at hne
    omega

theorem mem_marks_of_position? {l : Label} {p : Nat} (h : e.position? l = some p) :
    (l, p) ∈ e.marks := by
  obtain ⟨before, after, hmarks, -⟩ := List.lookup_eq_some_iff.mp h
  rw [hmarks]
  exact List.mem_append_right before (.head _)

theorem closed_append (code : List (Instr Label)) {i : Instr Label} (hs : Sane [] e)
    (hr : e.regions = []) (hcode : ∀ j ∈ code ++ [i], j.target? = none)
    (hi : i.opcode.isTerminator = true) : (e.append (code ++ [i])).Closed := by
  refine ⟨hs.append hcode, by rw [regions_append, hr], ⟨i, ?_, hi⟩, fun l p hp => ?_⟩
  · rw [code_append, ← List.append_assoc, List.getLast?_concat]
  · rw [marks_append] at hp
    have hle := (hs.marks l p hp).le
    have hpos := i.size_pos
    rw [← e.offset_eq] at hle
    rw [offset_append, totalSize_append, totalSize, totalSize]
    omega

end Emitter

variable {fields : Array FieldDef} {q : Pool} {m : Nat} {t : MethodDef}

theorem History.eq_start (h : History q m t) (hc : t.commands = #[]) :
    ∃ owner name attrs returnType params isConstructor,
      t = .start owner name attrs returnType params isConstructor := by
  cases h with
  | start => exact ⟨_, _, _, _, _, _, rfl⟩
  | take h ht =>
    rw [ht.eq] at hc
    exact absurd hc Array.push_ne_empty

theorem History.closed_complete (h : History q m t) (hblocks : t.blocks = [])
    (hconcrete : t.attrs.isAbstract = false) : t.complete.Closed := by
  have hb := h.balanced
  rw [hblocks] at hb
  have hr : t.emitter.regions = [] := List.length_eq_zero_iff.mp hb.regions
  have htarget : ∀ i ∈ t.implied, i.target? = none := fun i => MethodDef.target?_of_mem_implied
  rw [MethodDef.complete, MethodDef.implied, hconcrete] at *
  cases hfall : t.emitter.canFallThrough with
  | false => exact Emitter.closed_of_not_canFallThrough hb.sane hr hfall
  | true =>
    simp only [hfall, Bool.not_false, Bool.and_self, if_true] at htarget ⊢
    cases hvoid : t.returnType.isVoid with
    | true =>
      rw [hvoid] at htarget
      exact Emitter.closed_append [] hb.sane hr htarget rfl
    | false =>
      rw [hvoid] at htarget
      exact Emitter.closed_append [_] hb.sane hr htarget rfl

theorem History.closed_accessor {id : Nat} {f : FieldDef} {code : List (Instr Label)}
    (h : History q m t) (hc : t.commands = #[]) (hcode : Accessor id f t code) :
    (t.emitter.append code).Closed ∧
      (code.forM EmitM.emit >>= fun _ => EmitM.finish) t.emitter =
        .ok (t.emitter.append code).body { t.emitter.append code with isFinished := true } := by
  have hb : Balanced [] t.emitter := by
    obtain ⟨_, _, _, _, _, _, rfl⟩ := h.eq_start hc
    exact h.balanced
  have hr : t.emitter.regions = [] := List.length_eq_zero_iff.mp hb.regions
  have hclosed : (t.emitter.append code).Closed := by
    cases hcode with
    | getter => exact Emitter.closed_append [_, _] hb.sane hr (by simp [Instr.target?]) rfl
    | setter =>
      exact Emitter.closed_append [_, _, _] hb.sane hr (by simp [Instr.target?]) rfl
  refine ⟨hclosed, ?_⟩
  exact (bind_of_ok (EmitM.forM_emit hb.sane.isOpen code)).trans
    (hclosed.sane.finish hclosed.regions)

theorem Settled.ended {body : Body} (h : Settled fields q m t) (hbody : t.state = .finished body) :
    ∃ t₀ code isSynthesized, History q m t₀ ∧
      (t₀.blocks = [] ∧ code = t₀.implied ∧ isSynthesized = t₀.isSynthesized ∨
        t₀.commands = #[] ∧ isSynthesized = true ∧
          ∃ id f, (fields[id]? = some f ∧ f.attrs = {}) ∧ Accessor id f t₀ code) ∧
      body = (t₀.emitter.append code).body ∧
      t = { t₀ with
        isSynthesized := isSynthesized
        emitter := { t₀.emitter.append code with isFinished := true }
        state := .finished body } := by
  cases h with
  | writing h =>
    rw [h.isOpen] at hbody
    cases hbody
  | aborted h =>
    rw [h] at hbody
    cases hbody
  | finished h hblocks hf =>
    cases hbody
    rw [h.finalize_eq hblocks] at hf
    cases hf
    exact ⟨_, _, _, h, .inl ⟨hblocks, rfl, rfl⟩, rfl, rfl⟩
  | synthesized h hnew hfield hcode hf =>
    cases hbody
    rw [(h.closed_accessor hnew hcode).2] at hf
    cases hf
    exact ⟨_, _, _, h, .inr ⟨hnew, rfl, _, _, hfield, hcode⟩, rfl, rfl⟩

theorem Settled.closed {body : Body} (h : Settled fields q m t)
    (hconcrete : t.attrs.isAbstract = false) (hbody : t.state = .finished body) :
    ∃ e : Emitter, e.Closed ∧ body = e.body ∧ e.code = t.emitter.code := by
  obtain ⟨t₀, code, _, h₀, ⟨hblocks, rfl, -⟩ | ⟨hnew, -, _, _, -, hcode⟩, rfl, rfl⟩ := h.ended hbody
  · exact ⟨_, h₀.closed_complete hblocks hconcrete, rfl, rfl⟩
  · exact ⟨_, (h₀.closed_accessor hnew hcode).1, rfl, rfl⟩

namespace Emitter.Closed

variable {e : Emitter} {p : Nat} {i : Instr Label}

theorem exists_first (h : e.Closed) : ∃ i, instrAt e.code.toList 0 = some i := by
  obtain ⟨i, hi, -⟩ := h.last
  cases hcode : e.code.toList with
  | nil =>
    rw [hcode] at hi
    cases hi
  | cons j code => exact ⟨j, rfl⟩

theorem exists_next (h : e.Closed) (hi : instrAt e.code.toList p = some i)
    (hthrough : i.opcode.isTerminator = false) :
    ∃ j, instrAt e.code.toList (p + i.size) = some j := by
  obtain ⟨before, after, hcode, rfl⟩ := instrAt_eq_some_iff.mp hi
  cases after with
  | nil =>
    obtain ⟨last, hlast, hterminator⟩ := h.last
    rw [hcode, List.getLast?_concat] at hlast
    cases hlast
    rw [hterminator] at hthrough
    cases hthrough
  | cons j after =>
    refine ⟨j, instrAt_eq_some_iff.mpr ⟨before ++ [i], after, ?_, ?_⟩⟩
    · rw [hcode, List.append_assoc]
      rfl
    · rw [totalSize_append, totalSize, totalSize, Nat.add_zero]

theorem exists_target (h : e.Closed) (hsize : e.offset < 2 ^ 31) {l : Label}
    (hi : instrAt e.code.toList p = some i) (hl : i.target? = some l) :
    ∃ p' j, (l, p') ∈ e.marks ∧ instrAt e.code.toList p' = some j ∧
      ((p + i.size : Nat) : Int) + (e.distance (p + i.size) l).toInt = p' := by
  obtain ⟨before, after, hcode, -⟩ := instrAt_eq_some_iff.mp hi
  have hmem : l ∈ e.targets := by
    rw [targets, hcode]
    exact List.mem_filterMap.mpr ⟨i, by simp, hl⟩
  have hmarked : e.isMarked l = true := by
    obtain hm | hm | ⟨r, hm, -⟩ := h.sane.targets l hmem
    · exact hm
    · cases hm
    · rw [h.regions] at hm
      cases hm
  obtain ⟨p', hp'⟩ := Option.isSome_iff_exists.mp hmarked
  have hmark := mem_marks_of_position? hp'
  have hlt := h.marks l p' hmark
  have hnext := instrAt_next_le hi
  rw [← e.offset_eq] at hnext
  obtain ⟨j, hj⟩ := (h.sane.marks l p' hmark).exists_instrAt (by
    rw [← e.offset_eq]
    exact hlt)
  exact ⟨p', j, hmark, hj, distance_toInt hp' (by omega) (by omega)⟩

theorem handler (h : e.Closed) (hsize : e.offset < 2 ^ 31) {k : Handler} (hk : k ∈ e.handlers) :
    k.tryStart.toNat ≤ k.tryEnd.toNat ∧ k.tryEnd.toNat ≤ k.handlerStart.toNat ∧
      (∃ i, instrAt e.code.toList k.tryStart.toNat = some i) ∧
      (∃ i, instrAt e.code.toList k.tryEnd.toNat = some i) ∧
      ∃ i, instrAt e.code.toList k.handlerStart.toNat = some i := by
  obtain ⟨a, b, c, ha, hb, hc, hab, hbc, hlt, h₁, h₂, h₃⟩ := h.sane.handlers k hk
  have hoffset := e.offset_eq
  have hsmall {n : Nat} (hn : n ≤ c) : n.toUInt32.toNat = n :=
    Nat.mod_eq_of_lt (by omega)
  rw [ha, hb, hc, hsmall (by omega), hsmall (by omega), hsmall (by omega)]
  exact ⟨hab, hbc, h₁.exists_instrAt (by omega), h₂.exists_instrAt (by omega),
    h₃.exists_instrAt hlt⟩

end Emitter.Closed

theorem Emitter.size_body (e : Emitter) : e.body.code.size = e.offset := by
  rw [body, List.size_toArray, assemble_length, e.offset_eq]

def Emitter.Inside (e : Emitter) (f : Frame) : Prop :=
  f.function.code = e.body.code → f.function.handlers = e.body.handlers →
    ∃ i, instrAt e.code.toList f.position = some i

namespace Emitter.Closed

variable {e : Emitter} {f f₁ f' : Frame} {i : Instr Int32}

theorem exists_arrives (h : e.Closed) (hsize : e.offset < 2 ^ 31) (hin : e.Inside f)
    (hcode : f.function.code = e.body.code) (hhandlers : f.function.handlers = e.body.handlers)
    (hfetch : f.fetch = .ok (i, f₁)) (ha : Arrives i f₁ f') :
    ∃ j, instrAt e.code.toList f'.position = some j := by
  obtain ⟨i₀, hi₀⟩ := hin hcode hhandlers
  rw [fetch_assemble hcode hi₀] at hfetch
  cases hfetch
  obtain ⟨hp, hthrough⟩ | ⟨d, hd, hp⟩ := ha
  · rw [Instr.opcode_mapTarget] at hthrough
    rw [hp]
    exact h.exists_next hi₀ hthrough
  · rw [Instr.target?_mapTarget] at hd
    obtain ⟨l, hl, rfl⟩ := Option.map_eq_some_iff.mp hd
    obtain ⟨p', j, -, hj, hdistance⟩ := h.exists_target hsize hi₀ hl
    rw [hp, hdistance]
    exact ⟨j, hj⟩

theorem invariant (h : e.Closed) (hsize : e.offset < 2 ^ 31) (m : Module) :
    Invariant m e.Inside fun c => e.Inside c.frame := by
  have hhandle (f : Frame) (k : Handler) (v : Value)
      (hk : k ∈ f.function.handlers) : e.Inside (f.handle k v) := by
    intro hcode hhandlers
    have hk' : k ∈ e.handlers := by
      rw [show e.handlers = f.function.handlers from hhandlers.symm]
      exact hk
    exact (h.handler hsize hk').2.2.2.2
  constructor
  case enter => exact fun _ _ _ _ _ _ _ => h.exists_first
  case next =>
    intro f i f₁ s f' s' hf hfetch hexec hcode hhandlers
    obtain ⟨hkeeps, harrives, -⟩ := fits_exec hexec
    rw [hkeeps.function, Frame.fetch_function hfetch] at hcode hhandlers
    exact h.exists_arrives hsize hf hcode hhandlers hfetch harrives
  case call =>
    intro f i f₁ s id args caller resume hf hfetch hexec hcode hhandlers
    obtain ⟨-, mode, callee, argc, target, rfl, -, hcaller, hkeeps, -⟩ := fits_exec hexec
    rw [hkeeps.function, Frame.fetch_function hfetch] at hcode hhandlers
    have hposition := congrArg Frame.position hcaller
    exact h.exists_arrives hsize hf hcode hhandlers hfetch (.inl ⟨hposition, by cases mode <;> rfl⟩)
  case resumed =>
    intro c v hc
    unfold Caller.resumed
    split <;> exact hc
  case handle => exact fun f k v _ hk => hhandle f k v hk
  case handleCaller => exact fun c k v _ hk => hhandle c.frame k v hk

end Emitter.Closed

/-- Control that is in the body stays there: the code decodes to the instructions, what control can
go to is among them, and the last one does not let it through. -/
structure ClosedBody (body : Body) (placed : List Placed) : Prop where
  decodes : instructions body.code = .ok placed
  within : ∀ p ∈ placed, p.offset < p.next ∧ p.next ≤ body.code.size
  jumps : ∀ p ∈ placed, ∀ d, p.instr.target? = some d → ∃ r ∈ placed, p.destination d = r.offset
  handlers : ∀ h ∈ body.handlers, h.tryStart ≤ h.tryEnd ∧ h.tryEnd ≤ h.handlerStart ∧
    ∀ position ∈ [h.tryStart, h.tryEnd, h.handlerStart], ∃ r ∈ placed, r.offset = position.toNat
  last : ∃ p, placed.getLast? = some p ∧ p.instr.opcode ∈ [.ret, .retVoid, .raise, .jump]

theorem mem_of_isTerminator {op : Opcode} (h : op.isTerminator = true) :
    op ∈ [.ret, .retVoid, .raise, Opcode.jump] := by
  cases op with
  | ret | retVoid | raise | jump => decide
  | _ => cases h

theorem Emitter.Closed.closedBody {e : Emitter} (h : e.Closed) (hsize : e.offset < 2 ^ 31) :
    ClosedBody e.body (placed e.distance 0 e.code.toList) := by
  have hplaced {offset : Nat} {i : Instr Label} (hi : instrAt e.code.toList offset = some i) :
      ∃ r ∈ placed e.distance 0 e.code.toList, r.offset = offset :=
    ⟨_, (mem_placed e.distance).mpr ⟨offset, i, hi, rfl⟩, Nat.zero_add offset⟩
  constructor
  case decodes => exact instructions_assemble e.distance e.code.toList
  case within =>
    intro p hp
    obtain ⟨offset, i, hi, rfl⟩ := (mem_placed e.distance).mp hp
    have hnext := instrAt_next_le hi
    have hpos := i.size_pos
    rw [e.size_body, e.offset_eq]
    dsimp only
    omega
  case jumps =>
    intro p hp d hd
    obtain ⟨offset, i, hi, rfl⟩ := (mem_placed e.distance).mp hp
    rw [Instr.target?_mapTarget] at hd
    obtain ⟨l, hl, rfl⟩ := Option.map_eq_some_iff.mp hd
    obtain ⟨p', j, -, hj, hdistance⟩ := h.exists_target hsize hi hl
    obtain ⟨r, hr, hoffset⟩ := hplaced hj
    refine ⟨r, hr, ?_⟩
    rw [hoffset, Placed.destination, Nat.zero_add]
    exact hdistance
  case handlers =>
    intro k hk
    obtain ⟨hstart, hend, ⟨a, ha⟩, ⟨b, hb⟩, ⟨c, hc⟩⟩ := h.handler hsize hk
    refine ⟨hstart, hend, fun position hposition => ?_⟩
    simp only [List.mem_cons, List.not_mem_nil, or_false] at hposition
    obtain rfl | rfl | rfl := hposition
    · exact hplaced ha
    · exact hplaced hb
    · exact hplaced hc
  case last =>
    obtain ⟨i, hi, hterminator⟩ := h.last
    have hlast := getLast?_placed e.distance 0 e.code.toList
    rw [hi] at hlast
    obtain ⟨p, hp, hopcode⟩ := Option.map_eq_some_iff.mp hlast
    refine ⟨p, hp, ?_⟩
    rw [hopcode]
    exact mem_of_isTerminator hterminator

def frames (k : Configuration) : List Frame := k.frame :: k.callers.map (·.frame)

def NeverAtEnd (body : Body) : Prop :=
  ∀ module limit store id args n k,
    run module limit n (enter module limit store [] id args) = .running k →
    ∀ f ∈ frames k, f.function.code = body.code → f.function.handlers = body.handlers →
      f.isAtEnd = false

theorem Emitter.Closed.neverAtEnd {e : Emitter} (h : e.Closed) (hsize : e.offset < 2 ^ 31) :
    NeverAtEnd e.body := by
  intro module limit store id args n k hrun f hmem hcode hhandlers
  have hholds := (h.invariant hsize module).holds_reached hrun
  have hin : e.Inside f := by
    obtain rfl | hmem := List.mem_cons.mp hmem
    · exact hholds.frame
    · obtain ⟨c, hcaller, rfl⟩ := List.mem_map.mp hmem
      exact hholds.callers c hcaller
  obtain ⟨i, hi⟩ := hin hcode hhandlers
  have hnext := instrAt_next_le hi
  have hpos := i.size_pos
  rw [Frame.isAtEnd, hcode, e.size_body, e.offset_eq]
  simp only [decide_eq_false_iff_not]
  omega

theorem BuildM.finished_of_finalize {d d' : Draft} {u : Unit} (h : finalize m d = .ok u d')
    (ht : d'.methods[m]? = some t) : ∃ body, t.state = .finished body := by
  obtain ⟨t₀, hfound, h⟩ := reading_bind_eq_ok.mp h
  rw [Draft.method_eq_ok] at hfound
  cases hs : t₀.state with
  | finished body =>
    simp only [hs] at h
    cases h
    rw [hfound] at ht
    cases ht
    exact ⟨body, hs⟩
  | aborted =>
    simp only [hs] at h
    cases h
  | «open» =>
    cases hb : t₀.blocks with
    | cons b blocks =>
      simp only [hs, hb] at h
      cases h
    | nil =>
      simp only [hs, hb] at h
      obtain ⟨body, d₁, -, h⟩ := bind_eq_ok.mp h
      cases h
      replace ht : (d₁.methods.modify m ({ · with state := .finished body }))[m]? = some t := ht
      rw [Array.getElem?_modify, if_pos rfl] at ht
      obtain ⟨t₁, -, rfl⟩ := Option.map_eq_some_iff.mp ht
      exact ⟨body, rfl⟩

/-- Every body that was finished is closed, and no execution of it runs off its end. -/
theorem Session.closedBody_of_finalize {p : Project} {issued : List (Nat × Variable)}
    (h : Session (fun _ _ _ => True) p issued) {m : Nat} {d : Draft} {t : MethodDef}
    (hf : BuildM.finalize m p.draft = .ok () d) (ht : d.methods[m]? = some t)
    (hconcrete : t.attrs.isAbstract = false) :
    ∃ body, t.state = .finished body ∧
      (body.code.size < 2 ^ 31 → (∃ placed, ClosedBody body placed) ∧ NeverAtEnd body) := by
  obtain ⟨body, hbody⟩ := BuildM.finished_of_finalize hf ht
  refine ⟨body, hbody, fun hsize => ?_⟩
  obtain ⟨issued', hc, -⟩ := (h.done (.finalize m) (fun _ _ => trivial)
    (map_eq_ok.mpr ⟨(), hf, rfl⟩)).course
  obtain ⟨e, hclosed, rfl, -⟩ := (hc.settled ht (.refl _)).closed hconcrete hbody
  rw [e.size_body] at hsize
  exact ⟨⟨_, hclosed.closedBody hsize⟩, hclosed.neverAtEnd hsize⟩

/-- Counts an argument up in a loop whose body is protected. -/
def guardedLoop : List Operation := [
  .defineType "Counter" {} none [],
  .defineMethod 0 "count" { isStatic := true } .int [⟨"n", .int⟩],
  .look 0 (.param 0),
  .edit 0 (.whileBegin (.slot 0 0 "n" .int) .less (.constant (.i32 10))),
  .edit 0 .tryBegin,
  .edit 0 (.arithmetic .add (.slot 0 0 "n" .int) (.constant (.i32 1))),
  .edit 0 (.assign (.slot 0 0 "n" .int) (.slot 0 1 "__add1" .int)),
  .edit 0 (.catchBegin .object),
  .edit 0 (.raise (.slot 0 2 "__ex2" .object)),
  .edit 0 .endTry,
  .edit 0 .endWhile]

theorem Session.closedBody_guardedLoop :
    ∃ p issued d t body, Builds (fun _ _ _ => True) "Counting" guardedLoop p issued ∧
      BuildM.finalize 0 p.draft = .ok () d ∧ d.methods[0]? = some t ∧
      t.attrs.isAbstract = false ∧ t.state = .finished body ∧ body.code.size = 54 ∧
      (∃ placed, ClosedBody body placed) ∧ NeverAtEnd body := by
  obtain ⟨p, issued, hp, hfinal⟩ := Builds.exists_of_any (fun _ _ _ => True) "Counting" guardedLoop
    (fun p _ => match BuildM.finalize 0 p.draft with
      | .ok _ d => d.methods[0]?.any fun t =>
        !t.attrs.isAbstract && t.body?.any fun body => body.code.size = 54
      | .error _ _ => false) (by decide +kernel)
  cases hf : BuildM.finalize 0 p.draft with
  | error e d =>
    simp only [hf] at hfinal
    cases hfinal
  | ok u d =>
    simp only [hf] at hfinal
    obtain ⟨t, ht, hbody⟩ := (Option.any_eq_true ..).mp hfinal
    rw [Bool.and_eq_true, Bool.not_eq_true'] at hbody
    obtain ⟨body, hstate, hclosed⟩ := hp.session.closedBody_of_finalize hf ht hbody.1
    have hsize : body.code.size = 54 := by
      simpa only [MethodDef.body?, hstate, Option.any_some, decide_eq_true_eq] using hbody.2
    exact ⟨p, issued, d, t, body, hp, hf, ht, hbody.1, hstate, hsize, hclosed (hsize ▸ by decide)⟩

end Bytesmith.Build
