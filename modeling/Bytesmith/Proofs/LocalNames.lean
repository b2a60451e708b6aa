import Bytesmith.Proofs.Lives
import Bytesmith.Proofs.Naming

namespace Bytesmith.Build

open Code

/-- The name of a temporary, when so many have been named. -/
def Numbered (n : Nat) (name : String) : Prop :=
  ∃ stem ∈ temporaryStems, ∃ k, 0 < k ∧ k ≤ n ∧ name = s!"__{stem}{k}"

/-- No stem has digits, so those of a name are its number. -/
theorem filter_isDigit_temporary {stem : String} (h : stem ∈ temporaryStems) (k : Nat) :
    (s!"__{stem}{k}").toList.filter Char.isDigit = Nat.toDigits 10 k := by
  have hstem : ∀ s ∈ temporaryStems, ("__" ++ s).toList.filter Char.isDigit = [] := by decide
  have hdigits : (Nat.toDigits 10 k).filter Char.isDigit = Nat.toDigits 10 k :=
    List.filter_eq_self.mpr fun c hc => Nat.isDigit_of_mem_toDigits (by decide) (by decide) hc
  have htext : s!"__{stem}{k}" = "__" ++ stem ++ k.repr := rfl
  rw [htext, String.toList_append, List.filter_append, hstem stem h, Nat.toList_repr, hdigits,
    List.nil_append]

namespace Numbered

variable {n n' : Nat} {name : String}

theorem mono (h : Numbered n name) (hn : n ≤ n') : Numbered n' name := by
  obtain ⟨stem, hstem, k, hpos, hk, hname⟩ := h
  exact ⟨stem, hstem, k, hpos, Nat.le_trans hk hn, hname⟩

theorem ne_next {stem : String} (h : Numbered n name) (hstem : stem ∈ temporaryStems) :
    name ≠ s!"__{stem}{n + 1}" := by
  obtain ⟨stem', hstem', k, -, hk, rfl⟩ := h
  intro hname
  have hdigits := congrArg (fun s : String => s.toList.filter Char.isDigit) hname
  simp only [filter_isDigit_temporary hstem, filter_isDigit_temporary hstem'] at hdigits
  have hnumber := congrArg (fun ds => Nat.ofDigitChars 10 ds 0) hdigits
  simp only [Nat.ofDigitChars_toDigits (by decide : 1 < 10) (by decide : 10 ≤ 10)] at hnumber
  omega

theorem isTemporary (h : Numbered n name) : isTemporary name = true := by
  obtain ⟨stem, -, k, -, -, rfl⟩ := h
  have happend : s!"__{stem}{k}" = "__" ++ (stem ++ toString k) := String.append_assoc ..
  rw [happend, isTemporary_append]

end Numbered

theorem Emitter.locals_leave (e : Emitter) (l : Label) : (e.leave l).locals = e.locals := by
  rw [Emitter.leave]
  split <;> rfl

theorem Emitter.locals_append (e : Emitter) (code : List (Instr Label)) :
    (e.append code).locals = e.locals := by
  induction code generalizing e with
  | nil => rfl
  | cons i code ih => exact ih (e.push i)

theorem Action.Acts.locals_eq {q : Pool} {e e' : Emitter} {a : Action} (h : a.Acts q e e') :
    e'.locals = e.locals := by
  cases h with
  | leave l e => exact e.locals_leave l
  | openCatch | closeRegion => exact Emitter.locals_leave _ _
  | _ => rfl

theorem Runs.locals_eq {q : Pool} {e e' : Emitter} {actions : List Action}
    (h : Runs q e actions e') : e'.locals = e.locals := by
  induction h with
  | nil e => rfl
  | cons hact _ ih => exact ih.trans hact.locals_eq

theorem Command.locals_prepare (c : Command) (e : Emitter) :
    (c.prepare e).locals.toList = e.locals.toList ++ (c.result?.map Variable.name).toList := by
  rw [prepare]
  cases c.result? <;> simp

theorem Command.local?_eq_none (c : Command) (hr : c.result? = none) : c.local? = none := by
  cases c with
  | defineLocal v => cases hr
  | _ => rfl

namespace MethodDef

def paramNames (t : MethodDef) : List String := t.params.map Parameter.name

def createdNames (t : MethodDef) : List String :=
  t.commands.toList.filterMap fun x => x.command.local?.map Variable.name

def names (t : MethodDef) : List String :=
  (if t.attrs.isStatic then [] else ["this"]) ++ t.paramNames ++ t.emitter.locals.toList

theorem not_mem_of_declares {t : MethodDef} {name : String} (h : t.declares name = false) :
    name ∉ t.paramNames ∧ name ∉ t.emitter.locals.toList := by
  obtain ⟨hparams, hlocals⟩ := Bool.or_eq_false_iff.mp h
  refine ⟨fun hmem => ?_, fun hmem => ?_⟩
  · obtain ⟨p, hp, rfl⟩ := List.mem_map.mp hmem
    exact List.any_eq_false.mp hparams p hp (beq_self_eq_true _)
  · rw [Array.contains_eq_mem, decide_eq_false_iff_not] at hlocals
    exact hlocals (Array.mem_toList_iff.mp hmem)

/-- What holds of the names in a body, given those of the temporaries in it and how many have been
named in the draft. -/
structure NamedBy (t : MethodDef) (n : Nat) (temporaries : List String) : Prop where
  locals : t.emitter.locals.toList.Perm (t.createdNames ++ temporaries)
  chosen : (t.paramNames ++ t.createdNames).Nodup
  receiver : "this" ∉ t.paramNames
  numbered : ∀ x ∈ temporaries, Numbered n x
  distinct : temporaries.Nodup

/-- Whenever a local was created, no parameter and no local before it had its name. -/
def CreatesNew (t : MethodDef) : Prop :=
  ∀ k x v, t.commands.toList[k]? = some x → x.command.local? = some v →
    v.name ∉ t.paramNames ∧
      v.name ∉ ((t.commands.toList.take k).filterMap (·.command.result?)).map Variable.name

namespace NamedBy

variable {t t' : MethodDef} {c : Command} {n n' : Nat} {temporaries : List String}

theorem step (h : t.NamedBy n temporaries) (hnames : c.Names t n n')
    (hparams : t'.paramNames = t.paramNames)
    (hlocals : t'.emitter.locals.toList =
      t.emitter.locals.toList ++ (c.result?.map Variable.name).toList)
    (hcreated : t'.createdNames = t.createdNames ++ (c.local?.map Variable.name).toList) :
    ∃ temporaries', t'.NamedBy n' temporaries' := by
  cases hnames with
  | nothing hr =>
    rw [hr, Option.map_none, Option.toList_none, List.append_nil] at hlocals
    rw [c.local?_eq_none hr, Option.map_none, Option.toList_none, List.append_nil] at hcreated
    refine ⟨temporaries, ?_, ?_, hparams ▸ h.receiver, h.numbered, h.distinct⟩
    · rw [hlocals, hcreated]
      exact h.locals
    · rw [hparams, hcreated]
      exact h.chosen
  | @declared v hnew =>
    obtain ⟨hparam, hlocal⟩ := not_mem_of_declares hnew
    have hlocals' : t'.emitter.locals.toList = t.emitter.locals.toList ++ [v.name] := hlocals
    have hcreated' : t'.createdNames = t.createdNames ++ [v.name] := hcreated
    have hbefore : v.name ∉ t.createdNames := fun hmem =>
      hlocal (h.locals.mem_iff.mpr (List.mem_append_left _ hmem))
    refine ⟨temporaries, ?_, ?_, hparams ▸ h.receiver, h.numbered, h.distinct⟩
    · rw [hlocals', hcreated', List.append_assoc]
      exact (h.locals.append_right _).trans (by
        rw [List.append_assoc]
        exact (List.perm_append_comm).append_left _)
    · rw [hparams, hcreated', ← List.append_assoc]
      refine List.nodup_append.mpr ⟨h.chosen, List.nodup_singleton _, fun x hx y hy hxy => ?_⟩
      rw [List.mem_singleton.mp hy] at hxy
      rw [hxy] at hx
      exact (List.mem_append.mp hx).elim hparam hbefore
  | @temporary _ v stem hr hl hstem hname =>
    rw [hr, Option.map_some, Option.toList_some] at hlocals
    rw [hl, Option.map_none, Option.toList_none, List.append_nil] at hcreated
    refine ⟨temporaries ++ [v.name], ?_, ?_, hparams ▸ h.receiver, fun x hx => ?_, ?_⟩
    · rw [hlocals, hcreated, ← List.append_assoc]
      exact h.locals.append_right _
    · rw [hparams, hcreated]
      exact h.chosen
    · obtain hx | hx := List.mem_append.mp hx
      · exact (h.numbered x hx).mono (Nat.le_succ n)
      · rw [List.mem_singleton.mp hx]
        exact ⟨stem, hstem, n + 1, Nat.succ_pos n, Nat.le_refl _, hname⟩
    · refine List.nodup_append.mpr ⟨h.distinct, List.nodup_singleton _, fun x hx y hy hxy => ?_⟩
      rw [hxy, List.mem_singleton.mp hy] at hx
      exact (h.numbered _ hx).ne_next hstem hname

theorem of_eq (h : t.NamedBy n temporaries) (hparams : t'.params = t.params)
    (hcommands : t'.commands = t.commands) (hlocals : t'.emitter.locals = t.emitter.locals) :
    t'.NamedBy n temporaries := by
  have hcreated : t'.createdNames = t.createdNames := by rw [createdNames, hcommands, createdNames]
  have hparams' : t'.paramNames = t.paramNames := by rw [paramNames, hparams, paramNames]
  refine ⟨?_, ?_, hparams' ▸ h.receiver, h.numbered, h.distinct⟩
  · rw [hlocals, hcreated]
    exact h.locals
  · rw [hparams', hcreated]
    exact h.chosen

theorem later (h : t.NamedBy n temporaries) (hn : n ≤ n') : t.NamedBy n' temporaries :=
  { h with numbered := fun x hx => (h.numbered x hx).mono hn }

/-- There are two ways for names to clash: a local is called like the receiver, or a temporary like
something that was named by choice. -/
theorem nodup_names_iff (h : t.NamedBy n temporaries) :
    t.names.Nodup ↔ (t.attrs.isStatic = false → "this" ∉ t.createdNames) ∧
      ∀ x ∈ temporaries, x ∉ t.paramNames ++ t.createdNames := by
  have hthis : "this" ∉ temporaries := fun hmem => by
    have hname := (h.numbered _ hmem).isTemporary
    revert hname
    decide
  have hperm : t.names.Perm ((if t.attrs.isStatic then [] else ["this"]) ++
      ((t.paramNames ++ t.createdNames) ++ temporaries)) := by
    rw [names, List.append_assoc, List.append_assoc]
    exact (h.locals.append_left _).append_left _
  have hapart : (t.paramNames ++ t.createdNames ++ temporaries).Nodup ↔
      ∀ x ∈ temporaries, x ∉ t.paramNames ++ t.createdNames := by
    rw [List.nodup_append]
    exact ⟨fun hall x hx hmem => hall.2.2 x hmem x hx rfl, fun hall =>
      ⟨h.chosen, h.distinct, fun x hx y hy hxy => hall y hy (hxy ▸ hx)⟩⟩
  have hreceiver : "this" ∈ t.paramNames ++ t.createdNames ++ temporaries ↔
      "this" ∈ t.createdNames := by
    simp only [List.mem_append, h.receiver, hthis, false_or, or_false]
  rw [hperm.nodup_iff]
  cases t.attrs.isStatic with
  | true => simpa using hapart
  | false =>
    rw [if_neg Bool.false_ne_true, List.singleton_append, List.nodup_cons, hreceiver, hapart]
    simp

end NamedBy

end MethodDef

variable {q : Pool} {m n : Nat} {c : Command} {t t' : MethodDef}

theorem Takes.locals_eq (h : Takes q m c t t') : t'.emitter.locals.toList =
    t.emitter.locals.toList ++ (c.result?.map Variable.name).toList := by
  rw [h.runs.locals_eq, Command.locals_prepare]

theorem Takes.createdNames_eq (h : Takes q m c t t') :
    t'.createdNames = t.createdNames ++ (c.local?.map Variable.name).toList := by
  rw [MethodDef.createdNames, h.commands_eq, Array.toList_push, List.filterMap_append]
  cases hl : c.local? <;> simp [MethodDef.createdNames, hl]

theorem Takes.paramNames_eq (h : Takes q m c t t') : t'.paramNames = t.paramNames := by
  rw [h.eq]
  rfl

theorem Writing.namedBy (h : Writing q m n t) : ∃ temporaries, t.NamedBy n temporaries := by
  induction h with
  | @start params owner name attrs returnType isConstructor n hparams =>
    obtain ⟨hdistinct, hparams⟩ := BuildM.checkParams_eq_ok.mp hparams
    refine ⟨[], .nil, ?_, fun hmem => ?_, fun x hx => ?_, .nil⟩
    · exact (List.append_nil (params.map Parameter.name)).symm ▸ hdistinct
    · obtain ⟨p, hp, hthis⟩ := List.mem_map.mp hmem
      exact (hparams p hp).2.2 hthis
    · cases hx
  | take _ ht hnames ih =>
    obtain ⟨temporaries, hnamed⟩ := ih
    exact hnamed.step hnames ht.paramNames_eq ht.locals_eq ht.createdNames_eq
  | later _ hn ih =>
    obtain ⟨temporaries, hnamed⟩ := ih
    exact ⟨temporaries, hnamed.later hn⟩

theorem Writing.locals_eq (h : Writing q m n t) :
    t.emitter.locals.toList = t.results.map Variable.name := by
  induction h with
  | start => rfl
  | @take _ _ _ t' c _ ht _ ih =>
    rw [ht.locals_eq, ih, MethodDef.results, MethodDef.results, ht.commands_eq, Array.toList_push,
      List.filterMap_append, List.map_append]
    cases hr : c.result? <;> simp [hr]
  | later _ _ ih => exact ih

theorem Writing.createsNew (h : Writing q m n t) : t.CreatesNew := by
  induction h with
  | start =>
    intro k x v hx
    cases hx
  | @take n n' t t' c h ht hnames ih =>
    intro k x v hx hv
    rw [ht.commands_eq, Array.toList_push] at hx ⊢
    rw [ht.paramNames_eq]
    obtain hk | rfl | hk := Nat.lt_trichotomy k t.commands.toList.length
    · rw [List.getElem?_append_left hk] at hx
      rw [List.take_append_of_le_length (Nat.le_of_lt hk)]
      exact ih k x v hx hv
    · rw [List.getElem?_concat_length] at hx
      rw [List.take_left, ← MethodDef.results, ← h.locals_eq]
      cases hx
      -- only a local that is declared has its name from outside
      cases hnames with
      | nothing hr =>
        rw [c.local?_eq_none hr] at hv
        cases hv
      | declared hnew =>
        cases hv
        exact MethodDef.not_mem_of_declares hnew
      | temporary _ hl =>
        rw [hl] at hv
        cases hv
    · rw [List.getElem?_eq_none (by rw [List.length_append]; exact hk)] at hx
      cases hx
  | later _ _ ih => exact ih

theorem Command.local?_of_check {e : BuildError} (h : c.check = .error e) : c.local? = none := by
  cases c with
  | defineLocal v => cases h
  | _ => rfl

theorem Life.namedBy (h : Life q m n t) : ∃ temporaries, t.NamedBy n temporaries := by
  cases h with
  | writing h => exact h.namedBy
  | refused h =>
    obtain ⟨temporaries, hnamed⟩ := h.namedBy
    exact ⟨temporaries, hnamed.of_eq rfl rfl rfl⟩
  | @failed k k' t c e h hcheck hnames hn =>
    obtain ⟨temporaries, hnamed⟩ := h.namedBy
    obtain ⟨temporaries', hnamed'⟩ : ∃ temporaries', ({ t with
        emitter := c.prepare t.emitter, state := .aborted } : MethodDef).NamedBy k' temporaries' :=
      hnamed.step hnames rfl (c.locals_prepare _) (by
        rw [Command.local?_of_check hcheck, Option.map_none, Option.toList_none, List.append_nil]
        rfl)
    exact ⟨temporaries', hnamed'.later hn⟩
  | finished h =>
    obtain ⟨temporaries, hnamed⟩ := h.namedBy
    exact ⟨temporaries, hnamed.of_eq rfl rfl (Emitter.locals_append ..)⟩
  | generated owner name attrs returnType isConstructor hparams =>
    have hstart := Writing.start (q := q) (m := m) owner name attrs returnType isConstructor n hparams
    obtain ⟨temporaries, hnamed⟩ := hstart.namedBy
    exact ⟨temporaries, hnamed.of_eq rfl rfl (Emitter.locals_append ..)⟩

theorem Life.createsNew (h : Life q m n t) : t.CreatesNew := by
  cases h with
  | writing h | refused h | failed h | finished h => exact h.createsNew
  | generated =>
    intro k x v hx
    cases hx

/-- In every session, whatever a method has been through, the names in it are distinct exactly when
none of its locals was created under the name of the receiver it has, and no temporary happened to
get a name that had been chosen before. -/
theorem Session.names_distinct_iff {p : Project} {issued : List (Nat × Variable)}
    (h : Session Anything p issued) (ht : p.draft.methods[m]? = some t) :
    t.CreatesNew ∧ ∃ temporaries, t.NamedBy p.draft.nameCount temporaries ∧
      (t.names.Nodup ↔ (t.attrs.isStatic = false → "this" ∉ t.createdNames) ∧
        ∀ x ∈ temporaries, x ∉ t.paramNames ++ t.createdNames) ∧
      ((∀ x ∈ t.paramNames ++ t.createdNames, x ≠ "this" ∧ isTemporary x = false) →
        t.names.Nodup) := by
  have hlife := h.lives _ (.refl _) m t ht
  obtain ⟨temporaries, hnamed⟩ := hlife.namedBy
  refine ⟨hlife.createsNew, temporaries, hnamed, hnamed.nodup_names_iff, fun hchosen => ?_⟩
  refine hnamed.nodup_names_iff.mpr ⟨fun _ hthis => ?_, fun x hx hmem => ?_⟩
  · exact (hchosen _ (List.mem_append_right _ hthis)).1 rfl
  · have htemporary := (hnamed.numbered x hx).isTemporary
    rw [(hchosen x hmem).2] at htemporary
    cases htemporary

/-- Temporaries of three kinds beside a local that is named like one; the last was made by an
operation that failed. -/
def totalling : List Request := [
  .perform (.defineType "Sum" {} none []),
  .perform (.defineMethod 0 "of" {} .int [⟨"left", .int⟩, ⟨"right", .int⟩]),
  .perform (.edit 0 (.createLocal "__total" .int)),
  .perform (.edit 0 .tryBegin),
  .perform (.edit 0 (.arithmetic .add (.slot 0 1 "left" .int) (.slot 0 2 "right" .int))),
  .perform (.edit 0 (.catchBegin .string)),
  .perform (.edit 0 .endTry),
  .perform (.edit 0 (.arithmetic .sub (.own ⟨"count", .int, .property 0 none none⟩)
    (.constant (.i32 1))))]

theorem Session.names_distinct_iff_totalling : ∃ p issued t,
    (Request.makeAll totalling (⟨.empty "Sums" {}, .empty⟩, [])).1 = p ∧
    Session Anything p issued ∧ p.draft.methods[0]? = some t ∧ t.state = .aborted ∧
    t.names = ["this", "left", "right", "__total", "__add1", "__ex2", "__sub3"] ∧
    t.createdNames = ["__total"] ∧ t.names.Nodup := by
  obtain ⟨_, issued, t, rfl, h, ht, hstate, hnames, hparams, hcreated, hlocals⟩ :=
    Session.exists_makeAll totalling "Sums" 0 (fun t => t.state = .aborted ∧
      t.names = ["this", "left", "right", "__total", "__add1", "__ex2", "__sub3"] ∧
      t.paramNames = ["left", "right"] ∧ t.createdNames = ["__total"] ∧
      t.emitter.locals.toList = ["__total", "__add1", "__ex2", "__sub3"]) (by decide +kernel)
  obtain ⟨-, temporaries, hnamed, hiff, -⟩ := h.names_distinct_iff ht
  have hperm := hnamed.locals
  rw [hlocals, hcreated, List.singleton_append, List.perm_cons] at hperm
  refine ⟨_, issued, t, rfl, h, ht, hstate, hnames, hcreated, hiff.mpr ⟨fun _ => ?_, ?_⟩⟩
  · rw [hcreated]
    decide
  · intro x hx
    rw [hparams, hcreated]
    revert x
    simp only [← hperm.mem_iff]
    decide

/-- A local that is called like the receiver, and one that is called like the first temporary. -/
def shadowing : List Request := [
  .perform (.defineType "Shape" {} none []),
  .perform (.defineMethod 0 "grow" {} .void [⟨"n", .int⟩]),
  .perform (.edit 0 (.createLocal "this" .int)),
  .perform (.defineMethod 0 "next" { isStatic := true } .int [⟨"n", .int⟩]),
  .perform (.edit 1 (.createLocal "__add1" .int)),
  .perform (.edit 1 (.arithmetic .add (.slot 1 0 "n" .int) (.constant (.i32 1)))),
  .perform (.edit 1 (.ret (.slot 1 1 "__add1" .int)))]

/-- Nothing holds names apart that begin with two underscores, nor locals from the receiver: of two
locals with one name the text does not say which is returned. -/
theorem Session.names_shadowed : ∃ p issued t t',
    (Request.makeAll shadowing (⟨.empty "Shapes" {}, .empty⟩, [])).1 = p ∧
    Session Anything p issued ∧ p.draft.methods[0]? = some t ∧ t.state = .open ∧
    t.names = ["this", "n", "this"] ∧ ¬t.names.Nodup ∧
    p.draft.methods[1]? = some t' ∧ t'.state = .open ∧ t'.names = ["n", "__add1", "__add1"] ∧
    ¬t'.names.Nodup ∧
    t'.render 0 "Shape" = Text.unlines ["private static int next(int n) \x7b", "    int __add1;",
      "    int __add1 = n + 1;", "    return __add1;", "\x7d"] := by
  obtain ⟨_, issued, t, rfl, h, ht, hstate, hnames⟩ := Session.exists_makeAll shadowing "Shapes" 0
    (fun t => t.state = .open ∧ t.names = ["this", "n", "this"]) (by decide +kernel)
  obtain ⟨_, _, t', rfl, -, ht', hstate', hnames', hlines⟩ :=
    Session.exists_makeAll shadowing "Shapes" 1 (fun t => t.state = .open ∧
      t.names = ["n", "__add1", "__add1"] ∧ t.render 0 "Shape" = Text.unlines
        ["private static int next(int n) \x7b", "    int __add1;", "    int __add1 = n + 1;",
          "    return __add1;", "\x7d"]) (by decide +kernel)
  refine ⟨_, issued, t, t', rfl, h, ht, hstate, hnames, ?_, ht', hstate', hnames', ?_, hlines⟩
  · rw [hnames]
    decide
  · rw [hnames']
    decide

end Bytesmith.Build
