import Bytesmith.Proofs.Creation
import Bytesmith.Proofs.Labels

namespace Bytesmith.Build

open Code Outcome

structure MethodDef.Stops (t t' : MethodDef) : Prop where
  state : t'.state = .aborted
  bytes : t'.emitter.bytes = t.emitter.bytes
  commands : t'.commands = t.commands
  blocks : t'.blocks = t.blocks
  handlers : t'.emitter.handlers = t.emitter.handlers

def Draft.Stops (m : Nat) (t : MethodDef) (d d' : Draft) : Prop :=
  ∃ t' n, t.Stops t' ∧ d' = d.edited m t' d.constants n

namespace Draft.Stops

variable {d d' : Draft} {m : Nat} {t : MethodDef}

theorem found (h : d.Stops m t d') (hfound : d.methods[m]? = some t) :
    ∃ t', d'.methods[m]? = some t' ∧ t.Stops t' := by
  obtain ⟨t', n, hstops, rfl⟩ := h
  exact ⟨t', found_edited (lt_size_of_found hfound), hstops⟩

theorem others (h : d.Stops m t d') {i : Nat} (hi : i ≠ m) : d'.methods[i]? = d.methods[i]? := by
  obtain ⟨t', n, -, rfl⟩ := h
  exact found_edited_ne hi

theorem constants (h : d.Stops m t d') : d'.constants = d.constants := by
  obtain ⟨t', n, -, rfl⟩ := h
  rfl

end Draft.Stops

variable {d d' : Draft} {m : Nat} {t : MethodDef} {e : BuildError}

theorem Edit.perform_of_resolve {q : Pool} (h : History q m t) (hfound : d.methods[m]? = some t)
    (hopen : t.ensureOpen = .ok ()) {edit : Edit} {c : Command} {blocks : List Block}
    (hresolve : edit.resolve d m t = .ok (c, blocks)) :
    ∃ n, c.Names t d.nameCount n ∧
      (∀ err, c.check = .error err → edit.perform m d = .error err (d.edited m
        { t with emitter := c.prepare t.emitter, state := .aborted } d.constants n)) ∧
      (c.check = .ok () → ∃ o : Output, c.setup ⟨c.prepare t.emitter, d.constants⟩ = .ok () o ∧
        edit.perform m d =
          .ok c.result? (d.edited m (t.recording c o.emitter blocks) o.constants n)) := by
  obtain ⟨hstands, hfresh, hnests⟩ := resolve_eq_ok hresolve
  obtain ⟨hemittable, hboxes⟩ := Command.emittable_of_stands hstands
  obtain ⟨n, hnames, hn⟩ := perform_of_resolve_ok hfound hopen hresolve
  refine ⟨n, hnames, fun err hcheck => ?_, fun hcheck => ?_⟩
  · have hsetup : c.setup ⟨c.prepare t.emitter, d.constants⟩ =
        .error err ⟨c.prepare t.emitter, d.constants⟩ := by
      rw [Command.setup, hcheck]
      rfl
    simp only [hsetup] at hn
    exact hn
  · obtain ⟨o, hsetup⟩ := Command.exists_setup (k := d.constants) h.tidy h.balanced.sane.isOpen
      hnests hcheck hemittable hboxes hfresh
    simp only [hsetup] at hn
    exact ⟨o, hsetup, hn⟩

/-- An operation on an open body fails before it writes or succeeds: its operands are refused, or
they cannot be read or written, or its command is set up. -/
theorem Edit.perform_cases {q : Pool} (h : History q m t) (hfound : d.methods[m]? = some t)
    (hopen : t.ensureOpen = .ok ()) (edit : Edit) :
    (∃ err n, edit.resolve d m t = .error err ∧ d.nameCount ≤ n ∧ edit.perform m d =
      .error err (d.edited m { t with state := .aborted } d.constants n)) ∨
    ∃ c blocks n, edit.resolve d m t = .ok (c, blocks) ∧ c.Names t d.nameCount n ∧
      ((∃ err, c.check = .error err ∧ edit.perform m d = .error err (d.edited m
          { t with emitter := c.prepare t.emitter, state := .aborted } d.constants n)) ∨
        c.check = .ok () ∧ ∃ o : Output, c.setup ⟨c.prepare t.emitter, d.constants⟩ = .ok () o ∧
          edit.perform m d =
            .ok c.result? (d.edited m (t.recording c o.emitter blocks) o.constants n)) := by
  cases hresolve : edit.resolve d m t with
  | error err =>
    obtain ⟨n, hle, hn⟩ := perform_of_resolve_error hfound hopen hresolve
    exact .inl ⟨err, n, rfl, hle, hn⟩
  | ok p =>
    obtain ⟨c, blocks⟩ := p
    obtain ⟨n, hnames, herror, hok⟩ := perform_of_resolve h hfound hopen hresolve
    refine .inr ⟨c, blocks, n, rfl, hnames, ?_⟩
    cases hcheck : c.check with
    | error err => exact .inl ⟨err, rfl, herror err hcheck⟩
    | ok u => exact .inr ⟨rfl, hok hcheck⟩

theorem Edit.stops_of_error {q : Pool} (h : History q m t) (hfound : d.methods[m]? = some t)
    (hopen : t.ensureOpen = .ok ()) {edit : Edit} (hfail : edit.perform m d = .error e d') :
    d.Stops m t d' := by
  obtain ⟨err, n, -, -, hn⟩ | ⟨c, blocks, n, -, -, ⟨err, -, hn⟩ | ⟨-, o, -, hn⟩⟩ :=
    edit.perform_cases h hfound hopen
  · rw [hfail] at hn
    cases hn
    exact ⟨{ t with state := .aborted }, n, ⟨rfl, rfl, rfl, rfl, rfl⟩, rfl⟩
  · rw [hfail] at hn
    cases hn
    exact ⟨{ t with emitter := c.prepare t.emitter, state := .aborted }, n,
      ⟨rfl, rfl, rfl, rfl, rfl⟩, rfl⟩
  · rw [hfail] at hn
    cases hn

theorem BuildM.stops_of_callNamed {q : Pool} (h : History q m t) (hfound : d.methods[m]? = some t)
    (hopen : t.ensureOpen = .ok ()) {receiver : Variable} {name : String} {args : List Variable}
    (hfail : BuildM.callNamed m receiver name args d = .error e d') : d.Stops m t d' := by
  obtain hfail | ⟨method, hcall⟩ := callNamed_eq_error hfail
  · rw [recording_eq hfound hopen] at hfail
    cases hread : reading (·.methodNamed receiver name args) d with
    | ok a s =>
      simp only [hread] at hfail
      cases hfail
    | error err s =>
      obtain rfl : d = s := ofExcept_eq_error hread
      simp only [hread] at hfail
      cases hfail
      exact ⟨{ t with state := .aborted }, d.nameCount, ⟨rfl, rfl, rfl, rfl, rfl⟩,
        Draft.modifyMethod_of_found hfound _⟩
  · exact Edit.stops_of_error h hfound hopen hcall

namespace Operation

def body? : Operation → Option Nat
  | .edit m _ | .bump m _ _ | .callNamed m _ _ _ => some m
  | _ => none

/-- Counting up or down takes two commands, all else on a body takes one. -/
def isSingle : Operation → Bool
  | .bump _ _ _ => false
  | _ => true

theorem stops_of_error {q : Pool} (h : History q m t) (hfound : d.methods[m]? = some t)
    (hopen : t.ensureOpen = .ok ()) (op : Operation) (hbody : op.body? = some m)
    (hsingle : op.isSingle = true) (hfail : op.perform d = .error e d') : d.Stops m t d' := by
  cases op with
  | edit i edit =>
    cases hbody
    exact edit.stops_of_error h hfound hopen (map_eq_error.mp hfail)
  | bump i op target => cases hsingle
  | callNamed i receiver name args =>
    cases hbody
    exact BuildM.stops_of_callNamed h hfound hopen (map_eq_error.mp hfail)
  | _ => cases hbody

theorem ensureOpen_of_ok {op : Operation} {given : List (Nat × Variable)}
    (hbody : op.body? = some m) (h : op.perform d = .ok given d') :
    ∃ t, d.methods[m]? = some t ∧ t.ensureOpen = .ok () := by
  have hedit {e : Edit} {r : Option Variable} {s : Draft} (he : e.perform m d = .ok r s) :
      ∃ t, d.methods[m]? = some t ∧ t.ensureOpen = .ok () := by
    obtain ⟨t, t', c, hedited, -⟩ := Edit.perform_done he
    exact ⟨t, hedited.found, (hedited.takes _ (.refl _)).isOpen⟩
  cases op with
  | edit i e =>
    cases hbody
    obtain ⟨r, hr, -⟩ := map_eq_ok.mp h
    exact hedit hr
  | bump i op target =>
    cases hbody
    obtain ⟨v, hv, -⟩ := map_eq_ok.mp h
    obtain ⟨next, s, hnext, -⟩ := bind_eq_ok.mp hv
    exact hedit (e := .arithmetic op target (.constant (.i32 1))) (map_eq_ok.mpr ⟨next, hnext, rfl⟩)
  | callNamed i receiver name args =>
    cases hbody
    obtain ⟨r, hr, -⟩ := map_eq_ok.mp h
    obtain ⟨method, s, hfind, -⟩ := bind_eq_ok.mp hr
    obtain ⟨t, hfound, hopen, -⟩ := BuildM.recording_eq_ok hfind
    exact ⟨t, hfound, hopen⟩
  | _ => cases hbody

end Operation

/-- What operations, whether they succeed or fail, and creations make of a module. -/
inductive Onward (p : Project) : Project → Prop
  | refl : Onward p p
  | perform {p' : Project} (h : Onward p p') (op : Operation) :
      Onward p { p' with draft := final (op.perform p'.draft) }
  | create {p' : Project} (h : Onward p p') : Onward p (final (ProjectM.create p'))

abbrev Anything : List (Nat × Variable) → Nat → Variable → Prop := fun _ _ _ => True

variable {p p' : Project} {issued : List (Nat × Variable)}

theorem Session.anything {Allowed : List (Nat × Variable) → Nat → Variable → Prop}
    (h : Session Allowed p issued) : Session Anything p issued := by
  induction h with
  | start name options disk => exact .start name options disk
  | done _ op _ hop ih => exact ih.done op (fun _ _ => trivial) hop
  | failed _ op _ hop ih => exact ih.failed op (fun _ _ => trivial) hop
  | created _ hc ih => exact ih.created hc
  | uncreated _ hc ih => exact ih.uncreated hc

theorem Session.onward (h : Session Anything p issued) (ho : Onward p p') :
    ∃ issued', Session Anything p' issued' := by
  induction ho with
  | refl => exact ⟨issued, h⟩
  | perform _ op ih =>
    obtain ⟨issued', h'⟩ := ih
    cases hop : op.perform _ with
    | ok given d => exact ⟨_, h'.done op (fun _ _ => trivial) hop⟩
    | error e d => exact ⟨_, h'.failed op (fun _ _ => trivial) hop⟩
  | create _ ih =>
    obtain ⟨issued', h'⟩ := ih
    cases hc : ProjectM.create _ with
    | ok module p' => exact ⟨_, h'.created hc⟩
    | error e p' => exact ⟨_, h'.uncreated hc⟩

theorem ProjectM.grows_create (p : Project) : p.draft.Grows (final (create p)).draft := by
  have hgoes : Leads (Goes Anything) BuildM.assemble := BuildM.goes_assemble
  cases hc : create p with
  | ok module p' =>
    obtain ⟨-, rfl⟩ | ⟨-, d, hassemble, hd⟩ := create_eq_ok hc
    · exact .refl _
    · have hgrows := (hgoes.of_ok hassemble).grows
      change p.draft.Grows p'.draft
      rw [hd]
      exact ⟨hgrows.types, hgrows.constants, hgrows.methods⟩
  | error e p' =>
    change p.draft.Grows p'.draft
    rw [(create_eq_error hc).1]
    exact (hgoes p.draft).grows

theorem Session.grows (h : Session Anything p issued) (ho : Onward p p') :
    p.draft.Grows p'.draft := by
  induction ho with
  | refl => exact .refl _
  | perform ho op ih =>
    obtain ⟨issued', h'⟩ := h.onward ho
    obtain ⟨given, hc, -⟩ := h'.course
    obtain ⟨_, hcontinues, -⟩ := hc.follows op fun _ _ => trivial
    exact ih.trans hcontinues.grows
  | @create p' ho ih => exact ih.trans (ProjectM.grows_create p')

theorem Session.aborted (h : Session Anything p issued) (ho : Onward p p')
    (hfound : p.draft.methods[m]? = some t) (ht : t.state = .aborted) :
    ∃ t', p'.draft.methods[m]? = some t' ∧ t'.state = .aborted := by
  obtain ⟨t', ht', hgrows⟩ := (h.grows ho).methods m t hfound
  exact ⟨t', ht', hgrows.aborted ht⟩

theorem Session.create_ne_ok (h : Session Anything p issued)
    (hfound : p.draft.methods[m]? = some t) (ht : t.state = .aborted) (module : Module)
    (p' : Project) : ProjectM.create p ≠ .ok module p' := by
  intro hc
  have hfrozen := h.frozen_of_create hc
  have hlater : Onward p p' := by
    have hcreated := Onward.create (Onward.refl (p := p))
    rwa [hc] at hcreated
  obtain ⟨t', ht', hstate⟩ := h.aborted hlater hfound ht
  obtain ⟨body, hbody⟩ := hfrozen.finished ht'
  rw [hstate] at hbody
  cases hbody

/-- An operation that takes one command and fails on a body that can be written to leaves all but
the state of the method as it is. The method is aborted: from then on nothing is written to it and
no module is created. -/
theorem Session.stopped_of_error (h : Session Anything p issued)
    (hfound : p.draft.methods[m]? = some t) (hstate : t.state = .open)
    (hconcrete : t.attrs.isAbstract = false) {op : Operation} (hbody : op.body? = some m)
    (hsingle : op.isSingle = true) (hfail : op.perform p.draft = .error e d') :
    (∃ t', d'.methods[m]? = some t' ∧ t.Stops t') ∧ d'.constants = p.draft.constants ∧
      (∀ i, i ≠ m → d'.methods[i]? = p.draft.methods[i]?) ∧
      ∀ p', Onward { p with draft := d' } p' →
        (∀ op' : Operation, op'.body? = some m → ∀ given s, op'.perform p'.draft ≠ .ok given s) ∧
        ∀ module p'', ProjectM.create p' ≠ .ok module p'' := by
  have hopen : t.ensureOpen = .ok () := by
    rw [MethodDef.ensureOpen, hstate, hconcrete]
    rfl
  obtain ⟨given, hc, -⟩ := h.course
  have hstops := op.stops_of_error ((hc.settled hfound (.refl _)).history hstate) hfound hopen hbody
    hsingle hfail
  have h' : Session Anything { p with draft := d' } issued := h.failed op (fun _ _ => trivial) hfail
  obtain ⟨t', ht', hstopped⟩ := hstops.found hfound
  refine ⟨⟨t', ht', hstopped⟩, hstops.constants, fun i hi => hstops.others hi, fun p' ho => ?_⟩
  obtain ⟨issued', hlater⟩ := h'.onward ho
  obtain ⟨t'', ht'', haborted⟩ := h'.aborted ho ht' hstopped.state
  refine ⟨fun op' hbody' given s hok => ?_, hlater.create_ne_ok ht'' haborted⟩
  obtain ⟨t₀, hfound₀, hopen₀⟩ := op'.ensureOpen_of_ok hbody' hok
  rw [ht''] at hfound₀
  cases hfound₀
  rw [MethodDef.ensureOpen, haborted] at hopen₀
  cases hopen₀

/-- A method that greets, guards what it does and is about to assign a text to a number. -/
def greeting : List Operation := [
  .defineType "Greeter" {} none [],
  .defineMethod 0 "count" { isStatic := true } .int [],
  .edit 0 (.ret (.constant (.i32 1))),
  .defineMethod 0 "greet" { isStatic := true } .void [],
  .edit 1 (.createLocal "text" .string),
  .edit 1 (.createLocal "n" .int),
  .edit 1 .tryBegin,
  .edit 1 (.assign (.slot 1 0 "text" .string) (.constant (.string "hello"))),
  .edit 1 (.catchBegin (.class 0 "Greeter"))]

def Draft.misassigns (d : Draft) : Bool :=
  match d.methods[1]?, Operation.perform
      (.edit 1 (.assign (.slot 1 1 "n" .int) (.slot 1 0 "text" .string))) d with
  | some t, .error _ _ => decide (t.state = .open ∧ t.attrs.isAbstract = false ∧
      t.emitter.bytes ≠ [] ∧ t.emitter.handlers ≠ [] ∧ t.blocks ≠ [] ∧ d.constants ≠ .empty)
  | _, _ => false

theorem Session.stopped_greeting :
    ∃ p issued t e d', Builds Anything "Greetings" greeting p issued ∧
      p.draft.methods[1]? = some t ∧
      t.emitter.bytes ≠ [] ∧ t.emitter.handlers ≠ [] ∧ t.blocks ≠ [] ∧ p.draft.constants ≠ .empty ∧
      Operation.perform (.edit 1 (.assign (.slot 1 1 "n" .int) (.slot 1 0 "text" .string)))
        p.draft = .error e d' ∧
      (∃ t', d'.methods[1]? = some t' ∧ t.Stops t') ∧ d'.constants = p.draft.constants ∧
      (∀ i, i ≠ 1 → d'.methods[i]? = p.draft.methods[i]?) ∧
      ∀ p', Onward { p with draft := d' } p' →
        (∀ op' : Operation, op'.body? = some 1 → ∀ given s, op'.perform p'.draft ≠ .ok given s) ∧
        ∀ module p'', ProjectM.create p' ≠ .ok module p'' := by
  obtain ⟨p, issued, hp, hfails⟩ := Builds.exists_of_any Anything "Greetings" greeting
    (fun p _ => p.draft.misassigns) (by decide +kernel)
  unfold Draft.misassigns at hfails
  split at hfails
  · rename_i t e d' hfound hfail
    obtain ⟨hstate, hconcrete, hbytes, hhandlers, hblocks, hconstants⟩ := of_decide_eq_true hfails
    exact ⟨p, issued, t, e, d', hp, hfound, hbytes, hhandlers, hblocks, hconstants, hfail,
      hp.session.stopped_of_error hfound hstate hconcrete rfl rfl hfail⟩
  · cases hfails

end Bytesmith.Build
