import Mathlib.Data.List.Forall2
import Mathlib.Data.List.Induction
import Bytesmith.Proofs.Grades

namespace Bytesmith.Build

open Code

/-- An open guarded block: the command that began it, and whether its body goes on. -/
structure Guard where
  start : Nat
  inBody : Bool
deriving DecidableEq, Repr

/-- A catch clause: the block it belongs to, the command that began it, and what it catches. -/
structure Clause where
  guard : Nat
  command : Nat
  type : StaticType
deriving DecidableEq, Repr

/-- The guarded blocks that are open behind commands, innermost first, and all clauses. -/
structure Outline where
  count : Nat
  guards : List Guard
  clauses : List Clause
deriving DecidableEq, Repr

def Command.isGuarding : Command → Bool
  | .tryBegin | .catchBegin _ _ | .endTry => true
  | _ => false

namespace Outline

def empty : Outline := ⟨0, [], []⟩

def take (o : Outline) (c : Command) : Outline :=
  match c, o.guards with
  | .tryBegin, guards => ⟨o.count + 1, ⟨o.count, true⟩ :: guards, o.clauses⟩
  | .catchBegin type _, g :: outer =>
    ⟨o.count + 1, ⟨g.start, false⟩ :: outer, o.clauses ++ [⟨g.start, o.count, type⟩]⟩
  | .endTry, _ :: outer => ⟨o.count + 1, outer, o.clauses⟩
  | _, guards => ⟨o.count + 1, guards, o.clauses⟩

def ofCommands (commands : List Emitted) : Outline :=
  commands.foldl (fun o c => o.take c.command) empty

/-- The blocks in whose body the last command lies, innermost first. -/
def bodies (o : Outline) : List Nat := (o.guards.filter (·.inBody)).map (·.start)

theorem take_of_not_guarding (o : Outline) {c : Command} (hc : c.isGuarding = false) :
    o.take c = ⟨o.count + 1, o.guards, o.clauses⟩ := by
  cases c <;> first | rfl | cases hc

theorem take_catchBegin {o : Outline} {g : Guard} {outer : List Guard} (h : o.guards = g :: outer)
    (type : StaticType) (v : Variable) : o.take (.catchBegin type v) =
      ⟨o.count + 1, ⟨g.start, false⟩ :: outer, o.clauses ++ [⟨g.start, o.count, type⟩]⟩ := by
  simp only [take, h]

theorem take_endTry {o : Outline} {g : Guard} {outer : List Guard} (h : o.guards = g :: outer) :
    o.take .endTry = ⟨o.count + 1, outer, o.clauses⟩ := by
  simp only [take, h]

theorem count_take (o : Outline) (c : Command) : (o.take c).count = o.count + 1 := by
  unfold take
  split <;> rfl

theorem ofCommands_concat (commands : List Emitted) (c : Emitted) :
    ofCommands (commands ++ [c]) = (ofCommands commands).take c.command := by
  rw [ofCommands, List.foldl_concat]
  rfl

theorem count_ofCommands (commands : List Emitted) :
    (ofCommands commands).count = commands.length := by
  induction commands using List.reverseRecOn with
  | nil => rfl
  | append_singleton commands c ih =>
    rw [ofCommands_concat, count_take, ih, List.length_append]
    rfl

end Outline

inductive Guarding (m : Nat) (e e' : Emitter) : Command → Prop
  | keeps {c : Command} (hc : c.isGuarding = false) (hregions : e'.regions = e.regions)
      (hhandlers : e'.handlers = e.handlers) : Guarding m e e' c
  | opens {l : Label} (hregions : e'.regions = ⟨e.offset, none, l, 0⟩ :: e.regions)
      (hhandlers : e'.handlers = e.handlers) : Guarding m e e' .tryBegin
  /-- The clause begins with the store of what it caught. -/
  | catches {type ty : StaticType} {slot : UInt16} {name : String} {region : Region}
      {outer : List Region} {tag : TypeTag} {start : Nat} (htag : type.tag? = some tag)
      (hopen : e.regions = region :: outer)
      (hregions : e'.regions = { region with
        tryEnd := some (region.tryEnd.getD e.offset)
        catches := region.catches + 1 } :: outer)
      (hstart : start + (Instr.storeLocal slot : Instr Label).size = e'.offset)
      (hhandlers : e'.handlers = e.handlers ++ [⟨region.tryStart.toUInt32,
        (region.tryEnd.getD e.offset).toUInt32, start.toUInt32, tag⟩]) :
      Guarding m e e' (.catchBegin type (.slot m slot name ty))
  | closes {region : Region} {outer : List Region} (hopen : e.regions = region :: outer)
      (hregions : e'.regions = outer) (hhandlers : e'.handlers = e.handlers) :
      Guarding m e e' .endTry

namespace Guarding

variable {q : Pool} {m : Nat} {c : Command} {blocks blocks' : List Block} {e e' : Emitter}

theorem plain (hi : c.indents = false) (ho : c.outdents = false)
    (hr : Runs q (c.prepare e) c.actions e') : Guarding m e e' c := by
  obtain ⟨rfl, -⟩ := Command.runs_plain hi ho hr
  refine .keeps ?_ ?_ ?_
  · cases c <;> simp_all [Command.isGuarding, Command.indents, Command.outdents]
  · rw [Emitter.regions_append]
    rfl
  · rw [Emitter.handlers_append]
    rfl

theorem branches {k : Condition} {l : Label} (hr : Runs q e (k.branches l) e') :
    e'.regions = e.regions ∧ e'.handlers = e.handlers := by
  obtain ⟨rfl, -⟩ := Condition.runs_branches hr
  exact ⟨Emitter.regions_append e _, Emitter.handlers_append e _⟩

theorem of_runs (hn : c.Nests blocks blocks') (he : c.Emittable) (hf : c.Fresh m e)
    (hr : Runs q (c.prepare e) c.actions e') : Guarding m e e' c := by
  cases hn with
  | plain hi ho => exact plain hi ho hr
  | ifBegin k l f =>
    obtain ⟨hregions, hhandlers⟩ := branches hr
    exact .keeps rfl hregions hhandlers
  | elseIf k previous l f outer =>
    obtain ⟨-, hr⟩ := hr.leave_inv.mark_inv
    obtain ⟨hregions, hhandlers⟩ := branches hr
    exact .keeps rfl (hregions.trans (Emitter.regions_leave _ f))
      (hhandlers.trans (Emitter.handlers_leave _ f))
  | elseBegin previous f outer =>
    cases hr.leave_inv.mark_inv.2
    exact .keeps rfl (Emitter.regions_leave _ f) (Emitter.handlers_leave _ f)
  | endIf pending f =>
    cases pending with
    | none =>
      cases hr.single_inv
      exact .keeps rfl rfl rfl
    | some l =>
      cases hr.mark_inv.2.mark_inv.2
      exact .keeps rfl rfl rfl
  | whileBegin k l l' =>
    obtain ⟨-, hr⟩ := hr.mark_inv
    obtain ⟨hregions, hhandlers⟩ := branches hr
    exact .keeps rfl hregions hhandlers
  | endWhile l l' =>
    cases hr.put_inv.mark_inv.2
    exact .keeps rfl rfl rfl
  | tryBegin =>
    cases hr.single_inv
    exact .opens rfl rfl
  | catchBegin ty v hasCatch outer =>
    obtain ⟨tag, name, ty', region, rest, htag, rfl, hregions, rfl⟩ := hf.runs_catchBegin he hr
    refine .catches htag hregions rfl rfl ?_
    exact congrArg (· ++ _) (Emitter.handlers_leave _ _)
  | endTry =>
    cases hr.single_inv with
    | closeRegion hregions hcatches hmark =>
      exact .closes hregions (Emitter.regions_leave _ _) (Emitter.handlers_leave _ _)

end Guarding

theorem Takes.guarding {q : Pool} {m : Nat} {c : Command} {t t' : MethodDef}
    (h : Takes q m c t t') : Guarding m t.emitter t'.emitter c :=
  .of_runs h.nests h.emittable h.fresh h.runs

def clausesOf (blocks : List Nat) (table : List (Clause × Handler)) : List (Clause × Handler) :=
  blocks.flatMap fun b => table.filter (·.1.guard == b)

section ClausesOf

variable {blocks blocks' : List Nat} {table : List (Clause × Handler)} {x : Clause × Handler}

theorem clausesOf_append :
    clausesOf (blocks ++ blocks') table = clausesOf blocks table ++ clausesOf blocks' table :=
  List.flatMap_append

theorem clausesOf_eq_nil (h : ∀ b ∈ blocks, ∀ x ∈ table, x.1.guard ≠ b) :
    clausesOf blocks table = [] := by
  refine List.flatMap_eq_nil_iff.mpr fun b hb => List.filter_eq_nil_iff.mpr fun x hx => ?_
  simpa using h b hb x hx

theorem clausesOf_concat_of_not_mem (h : x.1.guard ∉ blocks) :
    clausesOf blocks (table ++ [x]) = clausesOf blocks table := by
  refine List.flatMap_congr fun b hb => ?_
  have hne : x.1.guard ≠ b := fun heq => h (heq ▸ hb)
  rw [List.filter_append, List.filter_singleton, beq_false_of_ne hne]
  exact List.append_nil _

theorem clausesOf_concat {before behind : List Nat} (hbefore : x.1.guard ∉ before)
    (hbehind : x.1.guard ∉ behind) (hnone : ∀ b ∈ behind, ∀ y ∈ table, y.1.guard ≠ b) :
    clausesOf (before ++ x.1.guard :: behind) (table ++ [x]) =
      clausesOf (before ++ x.1.guard :: behind) table ++ [x] := by
  have hself (table : List (Clause × Handler)) : clausesOf (x.1.guard :: behind) table =
      table.filter (·.1.guard == x.1.guard) ++ clausesOf behind table := List.flatMap_cons
  rw [clausesOf_append, clausesOf_append, clausesOf_concat_of_not_mem hbefore, hself, hself,
    clausesOf_concat_of_not_mem hbehind, clausesOf_eq_nil hnone, List.filter_append]
  simp

end ClausesOf

def Region.Holds (r : Region) (offset : Nat) : Prop :=
  r.tryStart ≤ offset ∧ ∀ tryEnd, r.tryEnd = some tryEnd → offset < tryEnd

structure Outlined (o : Outline) (e : Emitter) : Prop where
  regions : List.Forall₂ (fun g r => g.inBody = r.tryEnd.isNone) o.guards e.regions
  length : o.clauses.length = e.handlers.length
  distinct : (o.guards.map (·.start)).Nodup
  begun : ∀ g ∈ o.guards, g.start < o.count
  owned : ∀ k ∈ o.clauses, k.guard < o.count
  unclaimed : ∀ g ∈ o.guards, g.inBody = true → ∀ k ∈ o.clauses, k.guard ≠ g.start
  passed : ∀ r ∈ e.regions, r.tryStart ≤ e.offset ∧ ∀ x, r.tryEnd = some x → x ≤ e.offset
  ended : ∀ h ∈ e.handlers, h.tryEnd.toNat ≤ e.offset

namespace Outlined

variable {m : Nat} {c : Command} {o : Outline} {e e' : Emitter}

theorem empty (hregions : e.regions = []) (hhandlers : e.handlers = []) : Outlined .empty e := by
  constructor
  case regions => exact hregions ▸ .nil
  case length => exact hhandlers ▸ rfl
  case distinct => exact List.nodup_nil
  all_goals simp [Outline.empty, hregions, hhandlers]

theorem start_mem_bodies (h : Outlined o e) {g : Guard} (hg : g ∈ o.guards) :
    g.start ∈ o.bodies ↔ g.inBody = true := by
  refine ⟨fun hmem => ?_, fun hbody => List.mem_map.mpr ⟨g, List.mem_filter.mpr ⟨hg, hbody⟩, rfl⟩⟩
  obtain ⟨g', hg', heq⟩ := List.mem_map.mp hmem
  obtain ⟨hg', hbody⟩ := List.mem_filter.mp hg'
  rwa [← List.inj_on_of_nodup_map h.distinct hg' hg heq]

theorem getD_tryEnd_le (h : Outlined o e) {r : Region} (hr : r ∈ e.regions) :
    r.tryEnd.getD e.offset ≤ e.offset := by
  cases hend : r.tryEnd with
  | none => exact Nat.le_refl _
  | some x => exact (h.passed r hr).2 x hend

theorem bounds (h : Outlined o e) (hg : Guarding m e e' c) :
    (∀ r ∈ e'.regions, r.tryStart ≤ e.offset ∧ ∀ x, r.tryEnd = some x → x ≤ e.offset) ∧
      ∀ k ∈ e'.handlers, k.tryEnd.toNat ≤ e.offset := by
  cases hg with
  | keeps hc hregions hhandlers => exact ⟨hregions ▸ h.passed, hhandlers ▸ h.ended⟩
  | opens hregions hhandlers =>
    refine ⟨fun r hr => ?_, hhandlers ▸ h.ended⟩
    rw [hregions] at hr
    obtain rfl | hr := List.mem_cons.mp hr
    · exact ⟨Nat.le_refl _, nofun⟩
    · exact h.passed r hr
  | @catches type ty slot name region outer tag start htag hopen hregions hstart hhandlers =>
    have hregion : region ∈ e.regions := hopen ▸ (.head _)
    have hend := h.getD_tryEnd_le hregion
    refine ⟨fun r hr => ?_, fun k hk => ?_⟩
    · rw [hregions] at hr
      obtain rfl | hr := List.mem_cons.mp hr
      · exact ⟨(h.passed region hregion).1, fun x hx => Option.some.inj hx ▸ hend⟩
      · exact h.passed r (hopen ▸ List.mem_cons_of_mem _ hr)
    · rw [hhandlers] at hk
      obtain hk | hk := List.mem_append.mp hk
      · exact h.ended k hk
      · rw [List.mem_singleton.mp hk]
        exact Nat.le_trans (Nat.mod_le _ _) hend
  | closes hopen hregions hhandlers =>
    exact ⟨fun r hr => h.passed r (hopen ▸ List.mem_cons_of_mem _ (hregions ▸ hr)),
      hhandlers ▸ h.ended⟩

theorem step (h : Outlined o e) (hle : e.offset ≤ e'.offset) (hg : Guarding m e e' c) :
    Outlined (o.take c) e' := by
  obtain ⟨hregions', hhandlers'⟩ := h.bounds hg
  have hpassed (r : Region) (hr : r ∈ e'.regions) :
      r.tryStart ≤ e'.offset ∧ ∀ x, r.tryEnd = some x → x ≤ e'.offset :=
    ⟨Nat.le_trans (hregions' r hr).1 hle, fun x hx => Nat.le_trans ((hregions' r hr).2 x hx) hle⟩
  have hended (k : Handler) (hk : k ∈ e'.handlers) : k.tryEnd.toNat ≤ e'.offset :=
    Nat.le_trans (hhandlers' k hk) hle
  have hbegun (g : Guard) (hg : g ∈ o.guards) : g.start < o.count + 1 :=
    Nat.lt_succ_of_lt (h.begun g hg)
  have howned (k : Clause) (hk : k ∈ o.clauses) : k.guard < o.count + 1 :=
    Nat.lt_succ_of_lt (h.owned k hk)
  cases hg with
  | keeps hc hregions hhandlers =>
    rw [o.take_of_not_guarding hc]
    exact ⟨hregions ▸ h.regions, hhandlers ▸ h.length, h.distinct, hbegun, howned, h.unclaimed,
      hpassed, hended⟩
  | opens hregions hhandlers =>
    refine ⟨hregions ▸ .cons rfl h.regions, hhandlers ▸ h.length,
      List.nodup_cons.mpr ⟨fun hmem => ?_, h.distinct⟩, fun g hg => ?_, howned,
      fun g hg hbody k hk => ?_, hpassed, hended⟩
    · obtain ⟨g, hg, heq⟩ := List.mem_map.mp hmem
      exact Nat.ne_of_lt (h.begun g hg) heq
    · obtain rfl | hg := List.mem_cons.mp hg
      · exact Nat.lt_succ_self _
      · exact hbegun g hg
    · obtain rfl | hg := List.mem_cons.mp hg
      · exact Nat.ne_of_lt (h.owned k hk)
      · exact h.unclaimed g hg hbody k hk
  | catches htag hopen hregions hstart hhandlers =>
    obtain ⟨g, guards, -, hrest, hguards⟩ := List.forall₂_cons_right_iff.mp (hopen ▸ h.regions)
    have hdistinct := h.distinct
    rw [hguards] at hdistinct hbegun
    have hfirst : g.start < o.count + 1 := hbegun g (.head _)
    rw [Outline.take_catchBegin hguards]
    refine ⟨hregions ▸ .cons rfl hrest, ?_, hdistinct, fun g' hg' => ?_, fun k hk => ?_,
      fun g' hg' hbody' k hk => ?_, hpassed, hended⟩
    · rw [hhandlers, List.length_append, List.length_append, h.length]
      rfl
    · obtain rfl | hg' := List.mem_cons.mp hg'
      · exact hfirst
      · exact hbegun g' (.tail _ hg')
    · obtain hk | hk := List.mem_append.mp hk
      · exact howned k hk
      · rw [List.mem_singleton.mp hk]
        exact hfirst
    · obtain rfl | hg' := List.mem_cons.mp hg'
      · cases hbody'
      obtain hk | hk := List.mem_append.mp hk
      · exact h.unclaimed g' (hguards ▸ List.mem_cons_of_mem _ hg') hbody' k hk
      · rw [List.mem_singleton.mp hk]
        intro heq
        exact (List.nodup_cons.mp hdistinct).1 (List.mem_map.mpr ⟨g', hg', heq.symm⟩)
  | closes hopen hregions hhandlers =>
    obtain ⟨g, guards, -, hrest, hguards⟩ := List.forall₂_cons_right_iff.mp (hopen ▸ h.regions)
    have hdistinct := h.distinct
    have hunclaimed := h.unclaimed
    rw [hguards] at hdistinct hbegun hunclaimed
    rw [Outline.take_endTry hguards]
    exact ⟨hregions ▸ hrest, hhandlers ▸ h.length, (List.nodup_cons.mp hdistinct).2,
      fun g' hg' => hbegun g' (.tail _ hg'), howned,
      fun g' hg' => hunclaimed g' (.tail _ hg'), hpassed, hended⟩

end Outlined

def openOf (blocks : List Nat) (guards : List Guard) : List Nat :=
  (guards.map (·.start)).filter (· ∈ blocks)

section OpenOf

variable {blocks : List Nat} {g : Guard} {guards : List Guard}

theorem openOf_cons_of_mem (h : g.start ∈ blocks) :
    openOf blocks (g :: guards) = g.start :: openOf blocks guards :=
  List.filter_cons_of_pos (decide_eq_true h)

theorem openOf_cons_of_not_mem (h : g.start ∉ blocks) :
    openOf blocks (g :: guards) = openOf blocks guards :=
  List.filter_cons_of_neg (by simpa using h)

theorem mem_of_mem_tail_openOf {b : Nat} (h : b ∈ (openOf blocks (g :: guards)).tail) :
    b ∈ guards.map (·.start) := by
  by_cases hmem : g.start ∈ blocks
  · rw [openOf_cons_of_mem hmem] at h
    exact List.mem_of_mem_filter h
  · rw [openOf_cons_of_not_mem hmem] at h
    exact List.mem_of_mem_filter (List.mem_of_mem_tail h)

end OpenOf

/-- The offset is behind, and the handlers that cover it are those of the given blocks. What is
added to the table for a block that is still open comes where it belongs, because the blocks around
it have no clause before it is closed. -/
structure Covering (offset : Nat) (blocks : List Nat) (o : Outline) (e : Emitter) : Prop where
  behind : offset < e.offset
  begun : ∀ b ∈ blocks, b < o.count
  distinct : blocks.Nodup
  holds : List.Forall₂ (fun g r => r.Holds offset ↔ g.start ∈ blocks) o.guards e.regions
  ordered : openOf blocks o.guards <:+ blocks
  unclaimed : ∀ b ∈ (openOf blocks o.guards).tail, ∀ k ∈ o.clauses, k.guard ≠ b
  covered : (o.clauses.zip e.handlers).filter (·.2.covers offset) =
    clausesOf blocks (o.clauses.zip e.handlers)

namespace Covering

variable {m offset : Nat} {blocks : List Nat} {c : Command} {o : Outline} {e e' : Emitter}

theorem holds_of_catch {region : Region} (hoffset : offset < e.offset) :
    { region with tryEnd := some (region.tryEnd.getD e.offset) }.Holds offset ↔
      region.Holds offset := by
  unfold Region.Holds
  cases region.tryEnd with
  | none => simp [hoffset]
  | some x => simp

theorem covers_of_catch {region : Region} (hoffset : offset < e.offset) (hsize : e.offset < 2 ^ 32)
    (hstart : region.tryStart ≤ e.offset) (hend : region.tryEnd.getD e.offset ≤ e.offset)
    (start : UInt32) (tag : TypeTag) :
    Handler.covers ⟨region.tryStart.toUInt32, (region.tryEnd.getD e.offset).toUInt32, start, tag⟩
      offset = true ↔ region.Holds offset := by
  have hs : region.tryStart.toUInt32.toNat = region.tryStart :=
    Nat.mod_eq_of_lt (Nat.lt_of_le_of_lt hstart hsize)
  have he : (region.tryEnd.getD e.offset).toUInt32.toNat = region.tryEnd.getD e.offset :=
    Nat.mod_eq_of_lt (Nat.lt_of_le_of_lt hend hsize)
  rw [Handler.covers, hs, he, Region.Holds]
  cases region.tryEnd with
  | none => simp [hoffset]
  | some x => simp

theorem concat_covered {g : Guard} {guards : List Guard} {x : Clause × Handler}
    (h : Covering offset blocks o e) (hguards : o.guards = g :: guards) (hx : x.1.guard = g.start)
    (hcovers : x.2.covers offset = true ↔ g.start ∈ blocks) :
    (o.clauses.zip e.handlers ++ [x]).filter (·.2.covers offset) =
      clausesOf blocks (o.clauses.zip e.handlers ++ [x]) := by
  rw [List.filter_append, h.covered]
  by_cases hmem : g.start ∈ blocks
  · have hordered := h.ordered
    have hunclaimed := h.unclaimed
    rw [hguards, openOf_cons_of_mem hmem, ← hx] at hordered hunclaimed
    obtain ⟨closed, hblocks⟩ := hordered
    have hdistinct := h.distinct
    rw [← hblocks, List.nodup_append] at hdistinct
    obtain ⟨-, hopen, hdisjoint⟩ := hdistinct
    have hbefore : x.1.guard ∉ closed := fun hb => hdisjoint _ hb _ (.head _) rfl
    have hnone (b : Nat) (hb : b ∈ openOf blocks guards) (y : Clause × Handler)
        (hy : y ∈ o.clauses.zip e.handlers) : y.1.guard ≠ b :=
      hunclaimed b hb y.1 (List.of_mem_zip hy).1
    have hconcat := clausesOf_concat hbefore (List.nodup_cons.mp hopen).1 hnone
    rw [hblocks] at hconcat
    rw [hconcat, List.filter_singleton, hcovers.mpr hmem]
    rfl
  · have hcovers : x.2.covers offset = false := by
      rw [← Bool.not_eq_true]
      exact fun hc => hmem (hcovers.mp hc)
    rw [clausesOf_concat_of_not_mem (hx ▸ hmem), List.filter_singleton, hcovers]
    exact List.append_nil _

theorem step (h : Covering offset blocks o e) (ho : Outlined o e) (hle : e.offset ≤ e'.offset)
    (hsize : e'.offset < 2 ^ 32) (hg : Guarding m e e' c) : Covering offset blocks (o.take c) e' := by
  have hbehind : offset < e'.offset := Nat.lt_of_lt_of_le h.behind hle
  have hbegun (b : Nat) (hb : b ∈ blocks) : b < o.count + 1 := Nat.lt_succ_of_lt (h.begun b hb)
  cases hg with
  | keeps hc hregions hhandlers =>
    rw [o.take_of_not_guarding hc]
    exact ⟨hbehind, hbegun, h.distinct, hregions ▸ h.holds, h.ordered, h.unclaimed,
      hhandlers ▸ h.covered⟩
  | opens hregions hhandlers =>
    have hnew : o.count ∉ blocks := fun hmem => Nat.lt_irrefl _ (h.begun _ hmem)
    have hopenOf : openOf blocks (o.take .tryBegin).guards = openOf blocks o.guards :=
      openOf_cons_of_not_mem hnew
    refine ⟨hbehind, hbegun, h.distinct, hregions ▸ .cons ?_ h.holds, hopenOf ▸ h.ordered,
      hopenOf ▸ h.unclaimed, hhandlers ▸ h.covered⟩
    exact iff_of_false (fun hholds => Nat.not_le_of_lt h.behind hholds.1) hnew
  | @catches type ty slot name region outer tag start htag hopen hregions hstart hhandlers =>
    obtain ⟨g, guards, hholds, hrest, hguards⟩ := List.forall₂_cons_right_iff.mp (hopen ▸ h.holds)
    have hregion : region ∈ e.regions := hopen ▸ (.head _)
    have hcovers := (covers_of_catch h.behind (Nat.lt_of_le_of_lt hle hsize) (ho.passed _ hregion).1
      (ho.getD_tryEnd_le hregion) start.toUInt32 tag).trans hholds
    rw [Outline.take_catchBegin hguards]
    have hsame : openOf blocks (⟨g.start, false⟩ :: guards) = openOf blocks o.guards := by
      rw [hguards]
      rfl
    refine ⟨hbehind, hbegun, h.distinct, ?_, hsame ▸ h.ordered, fun b hb k hk => ?_, ?_⟩
    · exact hregions ▸ .cons ((holds_of_catch h.behind).trans hholds) hrest
    · rw [hsame] at hb
      obtain hk | hk := List.mem_append.mp hk
      · exact h.unclaimed b hb k hk
      · have hdistinct := ho.distinct
        rw [hguards] at hdistinct hb
        rw [List.mem_singleton.mp hk]
        rintro rfl
        exact (List.nodup_cons.mp hdistinct).1 (mem_of_mem_tail_openOf hb)
    · rw [hhandlers, List.zip_append ho.length]
      exact h.concat_covered hguards rfl hcovers
  | @closes region outer hopen hregions hhandlers =>
    obtain ⟨g, guards, hholds, hrest, hguards⟩ := List.forall₂_cons_right_iff.mp (hopen ▸ h.holds)
    have hordered := h.ordered
    have hunclaimed := h.unclaimed
    rw [Outline.take_endTry hguards]
    rw [hguards] at hordered hunclaimed
    by_cases hmem : g.start ∈ blocks
    · rw [openOf_cons_of_mem hmem] at hordered hunclaimed
      exact ⟨hbehind, hbegun, h.distinct, hregions ▸ hrest, (List.suffix_cons _ _).trans hordered,
        fun b hb => hunclaimed b (List.mem_of_mem_tail hb), hhandlers ▸ h.covered⟩
    · rw [openOf_cons_of_not_mem hmem] at hordered hunclaimed
      exact ⟨hbehind, hbegun, h.distinct, hregions ▸ hrest, hordered, hunclaimed,
        hhandlers ▸ h.covered⟩

theorem start (ho : Outlined o e) (hoffset : offset < e.offset)
    (hregions : ∀ r ∈ e.regions, r.tryStart ≤ offset ∧ ∀ x, r.tryEnd = some x → x ≤ offset)
    (hhandlers : ∀ h ∈ e.handlers, h.tryEnd.toNat ≤ offset) :
    Covering offset o.bodies o e := by
  have hopenOf : openOf o.bodies o.guards = o.bodies := by
    rw [openOf, List.filter_map, Outline.bodies]
    refine congrArg _ (List.filter_congr fun g hg => ?_)
    exact Bool.eq_iff_iff.mpr (decide_eq_true_iff.trans (ho.start_mem_bodies hg))
  have hbodies (b : Nat) (hb : b ∈ o.bodies) : ∃ g ∈ o.guards, g.inBody = true ∧ g.start = b := by
    obtain ⟨g, hg, heq⟩ := List.mem_map.mp hb
    obtain ⟨hg, hbody⟩ := List.mem_filter.mp hg
    exact ⟨g, hg, hbody, heq⟩
  have hunclaimed (b : Nat) (hb : b ∈ o.bodies) (k : Clause) (hk : k ∈ o.clauses) :
      k.guard ≠ b := by
    obtain ⟨g, hg, hbody, rfl⟩ := hbodies b hb
    exact ho.unclaimed g hg hbody k hk
  constructor
  case behind => exact hoffset
  case begun =>
    intro b hb
    obtain ⟨g, hg, -, rfl⟩ := hbodies b hb
    exact ho.begun g hg
  case distinct => exact ho.distinct.sublist (List.filter_sublist.map _)
  case holds =>
    obtain ⟨hlength, hmatch⟩ := List.forall₂_iff_zip.mp ho.regions
    refine List.forall₂_iff_zip.mpr ⟨hlength, fun {g r} hmem => ?_⟩
    obtain ⟨hg, hr⟩ := List.of_mem_zip hmem
    rw [ho.start_mem_bodies hg, hmatch hmem, Region.Holds]
    cases hend : r.tryEnd with
    | none => simp [(hregions r hr).1]
    | some x => simp [(hregions r hr).2 x hend]
  case ordered => exact ⟨[], hopenOf⟩
  case unclaimed => exact fun b hb => hunclaimed b (hopenOf ▸ List.mem_of_mem_tail hb)
  case covered =>
    rw [clausesOf_eq_nil fun b hb x hx => hunclaimed b hb x.1 (List.of_mem_zip hx).1,
      List.filter_eq_nil_iff]
    intro x hx hcovers
    have hend := hhandlers x.2 (List.of_mem_zip hx).2
    simp only [Handler.covers, Bool.and_eq_true, decide_eq_true_eq] at hcovers
    omega

end Covering

def MethodDef.outline (t : MethodDef) : Outline := .ofCommands t.commands.toList

/-- The blocks in whose bodies a command lies, innermost first. What a clause or an end writes is
no longer in the body. -/
def MethodDef.bodiesAt (t : MethodDef) (i : Nat) : List Nat :=
  (Outline.ofCommands (t.commands.toList.take (i + 1))).bodies

/-- The handler leads to the clause: to where it stores what it caught. -/
def Clause.Entry (commands : Array Emitted) (m : Nat) (k : Clause) (h : Handler) : Prop :=
  k.type.tag? = some h.catchType ∧ ∃ slot name ty start,
    commands[k.command]? = some ⟨.catchBegin k.type (.slot m slot name ty), start,
      h.handlerStart.toNat + (Instr.storeLocal slot : Instr Label).size⟩

theorem Clause.Entry.push {commands : Array Emitted} {m : Nat} {k : Clause} {h : Handler}
    (he : k.Entry commands m h) (c : Emitted) : k.Entry (commands.push c) m h := by
  obtain ⟨htag, slot, name, ty, start, hc⟩ := he
  refine ⟨htag, slot, name, ty, start, ?_⟩
  exact getElem?_push_of_some hc

theorem MethodDef.count_outline (t : MethodDef) : t.outline.count = t.commands.size :=
  Outline.count_ofCommands _

namespace Takes

variable {q : Pool} {m : Nat} {c : Command} {t t' : MethodDef}

theorem outline_eq (h : Takes q m c t t') : t'.outline = t.outline.take c := by
  rw [MethodDef.outline, h.commands_eq, Array.toList_push, Outline.ofCommands_concat]
  rfl

theorem bodiesAt_eq (h : Takes q m c t t') {i : Nat} (hi : i < t.commands.size) :
    t'.bodiesAt i = t.bodiesAt i := by
  rw [MethodDef.bodiesAt, h.commands_eq, Array.toList_push, List.take_append_of_le_length]
  · rfl
  · exact hi

theorem bodiesAt_size (h : Takes q m c t t') : t'.bodiesAt t.commands.size = t'.outline.bodies := by
  rw [MethodDef.bodiesAt, List.take_of_length_le]
  · rfl
  · have hlength : t'.commands.toList.length = t.commands.size + 1 := by
      rw [h.commands_eq, Array.length_toList, Array.size_push]
    exact Nat.le_of_eq hlength

end Takes

namespace History

variable {q : Pool} {m : Nat} {t : MethodDef}

theorem outlined (h : History q m t) : Outlined t.outline t.emitter := by
  induction h with
  | start => exact .empty rfl rfl
  | take h ht ih =>
    rw [ht.outline_eq]
    exact ih.step ht.runs.grows.1 ht.guarding

theorem covering (h : History q m t) (hsize : t.emitter.offset < 2 ^ 32) {i offset : Nat}
    {c : Emitted} (hc : t.commands[i]? = some c) (hstart : c.codeStart ≤ offset)
    (hend : offset < c.codeEnd) : Covering offset (t.bodiesAt i) t.outline t.emitter := by
  induction h with
  | start => cases hc
  | @take t t' c' h ht ih =>
    have hle := ht.runs.grows.1
    rw [ht.commands_eq, Array.getElem?_push] at hc
    split at hc
    · -- The command is the last one.
      rename_i hi
      cases hc
      obtain ⟨hregions, hhandlers⟩ := h.outlined.bounds ht.guarding
      rw [hi, ht.bodiesAt_size]
      refine .start (h.take ht).outlined hend (fun r hr => ?_) fun k hk => ?_
      · exact ⟨Nat.le_trans (hregions r hr).1 hstart,
          fun x hx => Nat.le_trans ((hregions r hr).2 x hx) hstart⟩
      · exact Nat.le_trans (hhandlers k hk) hstart
    · rw [ht.bodiesAt_eq (Array.getElem?_eq_some_iff.mp hc).1, ht.outline_eq]
      exact (ih (Nat.lt_of_le_of_lt hle hsize) hc).step h.outlined hle hsize ht.guarding

theorem entries (h : History q m t) (hsize : t.emitter.offset < 2 ^ 32) :
    ∀ x ∈ t.outline.clauses.zip t.emitter.handlers, x.1.Entry t.commands m x.2 := by
  induction h with
  | start => exact nofun
  | @take t t' c h ht ih =>
    have ih' := ih (Nat.lt_of_le_of_lt ht.runs.grows.1 hsize)
    have ho := h.outlined
    rw [ht.outline_eq, ht.commands_eq]
    cases ht.guarding with
    | keeps hc _ hhandlers =>
      rw [Outline.take_of_not_guarding _ hc, hhandlers]
      exact fun x hx => (ih' x hx).push _
    | opens _ hhandlers =>
      rw [hhandlers]
      exact fun x hx => (ih' x hx).push _
    | @catches type ty slot name region outer tag start htag hopen _ hstart hhandlers =>
      obtain ⟨g, guards, -, -, hguards⟩ := List.forall₂_cons_right_iff.mp (hopen ▸ ho.regions)
      rw [Outline.take_catchBegin hguards, hhandlers, List.zip_append ho.length]
      intro x hx
      obtain hx | hx := List.mem_append.mp hx
      · exact (ih' x hx).push _
      · rw [List.mem_singleton.mp hx]
        have hentry : start.toUInt32.toNat = start :=
          Nat.mod_eq_of_lt (Nat.lt_of_le_of_lt (hstart ▸ Nat.le_add_right ..) hsize)
        refine ⟨htag, slot, name, ty, t.emitter.offset, ?_⟩
        rw [hentry, hstart, t.count_outline]
        exact Array.getElem?_push_size
    | closes hopen _ hhandlers =>
      obtain ⟨g, guards, -, -, hguards⟩ := List.forall₂_cons_right_iff.mp (hopen ▸ ho.regions)
      rw [Outline.take_endTry hguards, hhandlers]
      exact fun x hx => (ih' x hx).push _

end History

theorem Settled.exists_written {fields : Array FieldDef} {q : Pool} {m : Nat} {t : MethodDef}
    {body : Body} (h : Settled fields q m t) (hbody : t.state = .finished body) :
    ∃ t₀, History q m t₀ ∧ t.commands = t₀.commands ∧ body.handlers = t₀.emitter.handlers ∧
      t₀.emitter.offset ≤ body.code.size := by
  obtain ⟨t₀, code, _, h₀, -, rfl, rfl⟩ := h.ended hbody
  refine ⟨t₀, h₀, rfl, Emitter.handlers_append t₀.emitter code, ?_⟩
  rw [Emitter.size_body, Emitter.offset_append]
  exact Nat.le_add_right ..

end Bytesmith.Build
