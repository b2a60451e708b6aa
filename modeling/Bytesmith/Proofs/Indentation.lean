import Mathlib.Data.List.Induction
import Bytesmith.Proofs.Lines
import Bytesmith.Proofs.Lives
import Bytesmith.Proofs.Protocol

namespace Bytesmith.Build

open Code Outcome

namespace Command

def mark? : Command → Option Mark
  | .ifBegin _ _ _ => some .ifBegin
  | .elseIf _ _ _ _ => some .elseIf
  | .elseBegin _ _ => some .elseBegin
  | .endIf _ _ => some .endIf
  | .whileBegin _ _ _ => some .whileBegin
  | .endWhile _ _ => some .endWhile
  | .tryBegin => some .tryBegin
  | .catchBegin _ _ => some .catchBegin
  | .endTry => some .endTry
  | _ => none

/-- The blocks that a command stands in; one that it continues or closes is not around it. -/
def around (c : Command) (blocks : List Shape) : List Shape :=
  if c.outdents then blocks.tail else blocks

/-- What a command does to the open blocks, by how it is indented. -/
inductive Moves (c : Command) : List Shape → List Shape → Prop
  | plain (hi : c.indents = false) (ho : c.outdents = false) (s : List Shape) : Moves c s s
  | opens (hi : c.indents = true) (ho : c.outdents = false) (b : Shape) (s : List Shape) :
      Moves c s (b :: s)
  | continues (hi : c.indents = true) (ho : c.outdents = true) (b b' : Shape) (s : List Shape) :
      Moves c (b :: s) (b' :: s)
  | closes (hi : c.indents = false) (ho : c.outdents = true) (b : Shape) (s : List Shape) :
      Moves c (b :: s) s

variable {c : Command} {s s' : List Shape} {blocks blocks' : List Block} {n level : Nat}

theorem moves_of_move (h : Mark.move c.mark? s = some s') : c.Moves s s' := by
  cases c with
  | ifBegin | whileBegin | tryBegin =>
    cases h
    exact .opens rfl rfl _ _
  | elseIf | elseBegin | catchBegin =>
    cases s with
    | nil => cases h
    | cons b s =>
      cases b <;> cases h
      all_goals exact .continues rfl rfl _ _ _
  | endIf | endWhile | endTry =>
    cases s with
    | nil => cases h
    | cons b s =>
      cases b <;> cases h
      all_goals exact .closes rfl rfl _ _
  | _ =>
    cases h
    exact .plain rfl rfl _

theorem Nests.move (h : c.Nests blocks blocks') :
    Mark.move c.mark? (blocks.map Block.shape) = some (blocks'.map Block.shape) := by
  cases h with
  | plain hi ho =>
    cases c with
    | ifBegin | elseIf | elseBegin | whileBegin | tryBegin | catchBegin => cases hi
    | endIf | endWhile | endTry => cases ho
    | _ => rfl
  | endIf pending => cases pending <;> rfl
  | catchBegin ty v hasCatch => cases hasCatch <;> rfl
  | _ => rfl

theorem max_ofNat_zero (h : n < 2 ^ 31) : max (Int32.ofNat n) 0 = Int32.ofNat n := by
  change (if Int32.ofNat n ≤ 0 then 0 else Int32.ofNat n) = Int32.ofNat n
  split
  · rename_i hle
    rw [Int32.le_iff_toInt_le, Int32.toInt_ofNat_of_lt h] at hle
    obtain rfl : n = 0 := by
      change (n : Int) ≤ 0 at hle
      omega
    rfl
  · rfl

theorem ofNat_succ_sub (n : Nat) : Int32.ofNat (n + 1) + -1 = Int32.ofNat n := by
  rw [Int32.ofNat_add, Int32.add_assoc]
  exact Int32.add_zero _

theorem length_around_le (c : Command) (s : List Shape) : (c.around s).length ≤ s.length := by
  rw [around]
  split
  · rw [List.length_tail]
    exact Nat.sub_le ..
  · exact Nat.le_refl _

/-- The depth counts the open blocks, and is not taken below zero. -/
theorem Moves.lineDepth_eq (h : c.Moves s s') (hfit : level + s.length < 2 ^ 31) :
    .ofNat (level + s.length) + c.indentDelta.1 = Int32.ofNat (level + (c.around s).length) ∧
      c.lineDepth (.ofNat (level + s.length)) = .ofNat (level + (c.around s).length) := by
  have hsum : .ofNat (level + s.length) + c.indentDelta.1 =
      Int32.ofNat (level + (c.around s).length) := by
    cases h with
    | plain hi ho | opens hi ho =>
      simp only [indentDelta, around, ho, Bool.false_eq_true, if_false]
      exact Int32.add_zero _
    | continues hi ho | closes hi ho =>
      simp only [indentDelta, around, ho, if_true, List.tail_cons]
      exact ofNat_succ_sub _
  have hle := c.length_around_le s
  exact ⟨hsum, by rw [lineDepth, hsum, max_ofNat_zero (by omega)]⟩

theorem Moves.nextDepth_eq (h : c.Moves s s') (hfit : level + s.length < 2 ^ 31) :
    c.nextDepth (.ofNat (level + s.length)) = .ofNat (level + s'.length) := by
  rw [nextDepth, (h.lineDepth_eq hfit).2]
  cases h with
  | plain hi ho | closes hi ho =>
    simp only [indentDelta, around, hi, ho, if_true, Bool.false_eq_true, if_false]
    exact Int32.add_zero _
  | opens hi ho | continues hi ho =>
    simp only [indentDelta, around, hi, ho, if_true, Bool.false_eq_true, if_false, List.tail_cons]
    exact (Int32.ofNat_add _ 1).symm

end Command

/-- The blocks that are open behind commands, the innermost first, unless a marker does not fit. -/
def openBehind (xs : List Emitted) : Option (List Shape) :=
  xs.foldlM (fun s x => Mark.move x.command.mark? s) []

/-- The block around the outer ones was opened by the command at this place, and has been open
since. -/
structure OpenedAt (xs : List Emitted) (j : Nat) (outer : List Shape) : Prop where
  opener : ∃ x, xs[j]? = some x ∧ x.command.indents = true ∧ x.command.outdents = false
  before : openBehind (xs.take j) = some outer
  since : ∀ i, j < i → i ≤ xs.length →
    ∃ inner b, openBehind (xs.take i) = some (inner ++ b :: outer)

variable {xs : List Emitted} {x : Emitted} {s inner outer : List Shape} {b : Shape}
  {j k level : Nat}

theorem openBehind_concat (xs : List Emitted) (x : Emitted) :
    openBehind (xs ++ [x]) = (openBehind xs).bind (Mark.move x.command.mark?) := by
  simp only [openBehind, List.foldlM_append, List.foldlM_cons, List.foldlM_nil, bind_pure]
  rfl

theorem exists_openBehind_take (h : openBehind xs = some s) (k : Nat) :
    ∃ s', openBehind (xs.take k) = some s' := by
  rw [← List.take_append_drop k xs, openBehind, List.foldlM_append] at h
  obtain ⟨s', hs', -⟩ := Option.bind_eq_some_iff.mp h
  exact ⟨s', hs'⟩

theorem length_le_of_openBehind (h : openBehind xs = some s) : s.length ≤ xs.length := by
  induction xs using List.reverseRecOn generalizing s with
  | nil =>
    cases h
    exact Nat.le_refl 0
  | append_singleton xs x ih =>
    rw [openBehind_concat] at h
    obtain ⟨s₁, hs₁, hmove⟩ := Option.bind_eq_some_iff.mp h
    have hle := ih hs₁
    rw [List.length_append, List.length_singleton]
    cases Command.moves_of_move hmove with
    | plain => exact Nat.le_succ_of_le hle
    | opens => exact Nat.succ_le_succ hle
    | continues | closes =>
      simp only [List.length_cons] at hle ⊢
      omega

theorem exists_move (h : openBehind xs = some s) (hx : xs[k]? = some x) :
    ∃ s₁ s₂, openBehind (xs.take k) = some s₁ ∧ x.command.Moves s₁ s₂ := by
  obtain ⟨s₁, hs₁⟩ := exists_openBehind_take h k
  obtain ⟨s₂, hs₂⟩ := exists_openBehind_take h (k + 1)
  rw [List.take_add_one, hx, Option.toList_some, openBehind_concat, hs₁] at hs₂
  exact ⟨s₁, s₂, hs₁, Command.moves_of_move hs₂⟩

theorem OpenedAt.concat (h : OpenedAt xs j outer)
    (hx : openBehind (xs ++ [x]) = some (inner ++ b :: outer)) : OpenedAt (xs ++ [x]) j outer := by
  obtain ⟨⟨y, hy, hopens⟩, hbefore, hsince⟩ := h
  have hj := (List.getElem?_eq_some_iff.mp hy).1
  refine ⟨⟨y, ?_, hopens⟩, ?_, fun i hi hle => ?_⟩
  · rw [List.getElem?_append_left hj, hy]
  · rw [List.take_append_of_le_length (Nat.le_of_lt hj), hbefore]
  · by_cases hlast : i ≤ xs.length
    · rw [List.take_append_of_le_length hlast]
      exact hsince i hi hlast
    · rw [List.take_of_length_le (by simp; omega)]
      exact ⟨inner, b, hx⟩

/-- Every open block has a command that opened it. The induction is over the commands, for all the
blocks that are open, since closing one brings out the next. -/
theorem exists_openedAt (inner : List Shape) (h : openBehind xs = some (inner ++ b :: outer)) :
    ∃ j, OpenedAt xs j outer := by
  induction xs using List.reverseRecOn generalizing inner b with
  | nil =>
    cases inner <;> cases h
  | append_singleton xs x ih =>
    have hmove := h
    rw [openBehind_concat] at hmove
    obtain ⟨s, hs, hmove⟩ := Option.bind_eq_some_iff.mp hmove
    have hold (inner' : List Shape) {b' : Shape} (hs' : s = inner' ++ b' :: outer) :
        ∃ j, OpenedAt (xs ++ [x]) j outer := by
      obtain ⟨j, hj⟩ := ih inner' (hs'.symm ▸ hs)
      exact ⟨j, hj.concat h⟩
    generalize hs' : inner ++ b :: outer = s' at hmove
    cases Command.moves_of_move hmove with
    | plain => exact hold inner hs'.symm
    | closes hi ho b' => exact hold (b' :: inner) (congrArg (b' :: ·) hs'.symm)
    | opens hi ho b' =>
      cases inner with
      | nil =>
        cases hs'
        refine ⟨xs.length, ⟨x, ?_, hi, ho⟩, ?_, fun i hlt hle => ?_⟩
        · simp
        · rw [List.take_left, hs]
        · rw [List.take_of_length_le (by simp; omega)]
          exact ⟨[], b, h⟩
      | cons first inner =>
        cases hs'
        exact hold inner rfl
    | continues hi ho b₀ b' s₀ =>
      cases inner with
      | nil =>
        cases hs'
        exact hold [] rfl
      | cons first inner =>
        cases hs'
        exact hold (b₀ :: inner) rfl

namespace MethodDef

def depthBehind (depth : Int32) (xs : List Emitted) : Int32 :=
  xs.foldl (fun depth x => x.command.nextDepth depth) depth

def commandLines (depth : Int32) : List Emitted → List String
  | [] => []
  | x :: xs => (Text.indent (x.command.lineDepth depth).toNatClampNeg ++ x.command.text) ::
      commandLines (x.command.nextDepth depth) xs

theorem commandText_eq (depth : Int32) (xs : List Emitted) :
    commandText depth xs = Text.unlines (commandLines depth xs) := by
  induction xs generalizing depth with
  | nil => rfl
  | cons x xs ih =>
    rw [commandText, ih, commandLines, Text.unlines_cons]

theorem commandText_append (depth : Int32) (xs ys : List Emitted) :
    commandText depth (xs ++ ys) =
      commandText depth xs ++ commandText (depthBehind depth xs) ys := by
  induction xs generalizing depth with
  | nil => exact (String.empty_append).symm
  | cons x xs ih =>
    rw [List.cons_append, commandText, ih, commandText, depthBehind, depthBehind, List.foldl_cons]
    simp only [String.append_assoc]

theorem length_commandLines (depth : Int32) (xs : List Emitted) :
    (commandLines depth xs).length = xs.length := by
  induction xs generalizing depth with
  | nil => rfl
  | cons x xs ih => exact congrArg (· + 1) (ih (x.command.nextDepth depth))

theorem getElem?_commandLines (depth : Int32) (hx : xs[k]? = some x) :
    (commandLines depth xs)[k]? = some (Text.indent
      (x.command.lineDepth (depthBehind depth (xs.take k))).toNatClampNeg ++ x.command.text) := by
  induction xs generalizing depth k with
  | nil => cases hx
  | cons y xs ih =>
    cases k with
    | zero =>
      cases hx
      rfl
    | succ k => exact ih (y.command.nextDepth depth) hx

theorem depthBehind_eq (h : openBehind xs = some s) (hfit : level + xs.length < 2 ^ 31) :
    depthBehind (.ofNat level) xs = .ofNat (level + s.length) := by
  induction xs using List.reverseRecOn generalizing s with
  | nil =>
    cases h
    rfl
  | append_singleton xs x ih =>
    rw [List.length_append, List.length_singleton] at hfit
    rw [openBehind_concat] at h
    obtain ⟨s₁, hs₁, hmove⟩ := Option.bind_eq_some_iff.mp h
    have hle := length_le_of_openBehind hs₁
    rw [depthBehind, List.foldl_concat, ← depthBehind, ih hs₁ (by omega)]
    exact (Command.moves_of_move hmove).nextDepth_eq (by omega)

theorem depthBehind_take (h : openBehind (xs.take k) = some s) (hfit : level + xs.length < 2 ^ 31) :
    depthBehind (.ofNat level) (xs.take k) = .ofNat (level + s.length) ∧
      level + s.length < 2 ^ 31 := by
  have hle := length_le_of_openBehind h
  have htake := List.length_take_le' k xs
  exact ⟨depthBehind_eq h (by omega), by omega⟩

theorem exists_line (h : openBehind xs = some s) (hx : xs[k]? = some x)
    (hfit : level + xs.length < 2 ^ 31) :
    ∃ s₁, openBehind (xs.take k) = some s₁ ∧ (commandLines (.ofNat level) xs)[k]? = some
      (Text.indent (level + (x.command.around s₁).length) ++ x.command.text) := by
  obtain ⟨s₁, s₂, hs₁, hmoves⟩ := exists_move h hx
  obtain ⟨hdepth, hlt⟩ := depthBehind_take hs₁ hfit
  have haround := x.command.length_around_le s₁
  refine ⟨s₁, hs₁, ?_⟩
  rw [getElem?_commandLines _ hx, hdepth, (hmoves.lineDepth_eq hlt).2,
    Int32.toNatClampNeg_ofNat_of_lt (by omega)]

theorem exists_opening_line (h : openBehind xs = some s) (hj : OpenedAt (xs.take k) j outer)
    (hfit : level + xs.length < 2 ^ 31) :
    ∃ y, xs[j]? = some y ∧ (commandLines (.ofNat level) xs)[j]? = some
      (Text.indent (level + outer.length) ++ y.command.text) := by
  obtain ⟨⟨y, hy, -, ho⟩, hbefore, -⟩ := hj
  have hlt : j < k :=
    Nat.lt_of_lt_of_le (List.getElem?_eq_some_iff.mp hy).1 (List.length_take_le k xs)
  rw [List.getElem?_take_of_lt hlt] at hy
  rw [List.take_take, Nat.min_eq_left (Nat.le_of_lt hlt)] at hbefore
  obtain ⟨s₁, hs₁, hline⟩ := exists_line h hy hfit
  rw [hbefore] at hs₁
  cases hs₁
  rw [Command.around, ho, if_neg Bool.false_ne_true] at hline
  exact ⟨y, hy, hline⟩

/-- The lines of the commands of a method, between its header and the end, show how the commands
are nested in blocks. -/
structure ShowsNesting (t : MethodDef) (level : Nat) (lines : List String) : Prop where
  length : lines.length = t.commands.size
  /-- The markers have led to the blocks that are open. -/
  blocks : openBehind t.commands.toList = some (t.blocks.map Block.shape)
  /-- A line is indented once for each block around its command. -/
  line : ∀ k x, t.commands.toList[k]? = some x → ∃ s, openBehind (t.commands.toList.take k) = some s ∧
    lines[k]? = some (Text.indent (level + (x.command.around s).length) ++ x.command.text)
  /-- What continues or closes a block stands where the block was opened. -/
  opened : ∀ k x, t.commands.toList[k]? = some x → x.command.outdents = true → ∃ j y b outer,
    openBehind (t.commands.toList.take k) = some (b :: outer) ∧
      OpenedAt (t.commands.toList.take k) j outer ∧ t.commands.toList[j]? = some y ∧
      lines[j]? = some (Text.indent (level + outer.length) ++ y.command.text) ∧
      lines[k]? = some (Text.indent (level + outer.length) ++ x.command.text)
  /-- The depth would nowhere fall below zero. -/
  unclamped : ∀ k x, t.commands.toList[k]? = some x →
    x.command.lineDepth (depthBehind (.ofNat level) (t.commands.toList.take k)) =
      depthBehind (.ofNat level) (t.commands.toList.take k) + x.command.indentDelta.1
  /-- The depth from which lines go on is that of the first line, and one for each open block. -/
  depth : ∀ k s, openBehind (t.commands.toList.take k) = some s →
    depthBehind (.ofNat level) (t.commands.toList.take k) = .ofNat (level + s.length) ∧ ∀ rest,
      commandText (.ofNat level) (t.commands.toList.take k ++ rest) =
        commandText (.ofNat level) (t.commands.toList.take k) ++
          commandText (depthBehind (.ofNat level) (t.commands.toList.take k)) rest

theorem showsNesting {t : MethodDef}
    (h : openBehind t.commands.toList = some (t.blocks.map Block.shape))
    (hfit : level + t.commands.size < 2 ^ 31) :
    t.ShowsNesting level (commandLines (.ofNat level) t.commands.toList) where
  length := length_commandLines _ _
  blocks := h
  line k x hx := exists_line h hx hfit
  opened k x hx ho := by
    obtain ⟨s₁, hs₁, hline⟩ := exists_line h hx hfit
    rw [Command.around, ho, if_pos rfl] at hline
    obtain ⟨s', s₂, hs', hmoves⟩ := exists_move h hx
    rw [hs₁] at hs'
    cases hs'
    cases hmoves with
    | plain _ ho' | opens _ ho' =>
      rw [ho] at ho'
      cases ho'
    | continues | closes =>
      obtain ⟨j, hj⟩ := exists_openedAt [] hs₁
      obtain ⟨y, hy, hopening⟩ := exists_opening_line h hj hfit
      exact ⟨j, y, _, _, hs₁, hj, hy, hopening, hline⟩
  unclamped k x hx := by
    obtain ⟨s₁, s₂, hs₁, hmoves⟩ := exists_move h hx
    obtain ⟨hdepth, hlt⟩ := depthBehind_take hs₁ hfit
    rw [hdepth, (hmoves.lineDepth_eq hlt).1, (hmoves.lineDepth_eq hlt).2]
  depth k s hs := ⟨(depthBehind_take hs hfit).1, commandText_append _ _⟩

def linesAround (t : MethodDef) (level : Nat) (owner : String) (lines : List String) :
    List String :=
  if t.attrs.isAbstract then [Text.indent level ++ t.header owner ++ ";"]
  else (Text.indent level ++ t.header owner ++ " \x7b") :: lines ++ [Text.indent level ++ "\x7d"]

theorem render_eq (t : MethodDef) (level : Nat) (owner : String) :
    t.render level owner = Text.unlines
      (t.linesAround level owner (commandLines (.ofNat (level + 1)) t.commands.toList)) := by
  have hlast (s : String) : Text.unlines [s] = s ++ "\n" := by
    rw [Text.unlines_cons]
    exact String.append_empty
  rw [render, linesAround]
  split
  · rw [hlast]
    simp only [String.append_assoc]
    rfl
  · have hstart : level.toInt32 + 1 = .ofNat (level + 1) := (Int32.ofNat_add level 1).symm
    rw [hstart, commandText_eq, List.cons_append, Text.unlines_cons, Text.unlines_append, hlast]
    simp only [String.append_assoc]
    rfl

theorem oneLine_of_mem_commandLines (depth : Int32) (h : ∀ x ∈ xs, Text.OneLine x.command.text) :
    ∀ line ∈ commandLines depth xs, Text.OneLine line := by
  induction xs generalizing depth with
  | nil => exact fun _ hline => absurd hline List.not_mem_nil
  | cons x xs ih =>
    obtain ⟨hx, hxs⟩ := List.forall_mem_cons.mp h
    exact List.forall_mem_cons.mpr ⟨Text.oneLine_append.mpr ⟨Text.oneLine_indent _, hx⟩, ih _ hxs⟩

theorem oneLine_of_mem_linesAround {t : MethodDef} {owner : String} {lines : List String}
    (h : ∀ name ∈ t.shown owner, Text.OneLine name) (hlines : ∀ line ∈ lines, Text.OneLine line) :
    ∀ line ∈ t.linesAround level owner lines, Text.OneLine line := by
  have hheader := oneLine_header h
  have hindent := Text.oneLine_indent level
  rw [linesAround]
  split
  · refine List.forall_mem_cons.mpr ⟨?_, fun _ hline => absurd hline List.not_mem_nil⟩
    simp +decide [hindent, hheader]
  · refine List.forall_mem_append.mpr ⟨List.forall_mem_cons.mpr ⟨?_, hlines⟩, ?_⟩
    · simp +decide [hindent, hheader]
    · simp +decide [hindent]

end MethodDef

variable {q : Pool} {m n : Nat} {t : MethodDef}

theorem History.openBehind_eq (h : History q m t) :
    openBehind t.commands.toList = some (t.blocks.map Block.shape) := by
  induction h with
  | start => rfl
  | take h ht ih =>
    rw [ht.commands_eq, Array.toList_push, openBehind_concat, ih]
    exact ht.nests.move

theorem History.commands_of_abstract (h : History q m t) (ha : t.attrs.isAbstract = true) :
    t.commands = #[] := by
  cases h with
  | start => rfl
  | take h ht =>
    have hconcrete := (MethodDef.state_of_ensureOpen ht.isOpen).2
    rw [ht.eq] at ha
    rw [hconcrete] at ha
    cases ha

theorem Life.openBehind_eq (h : Life q m n t) :
    openBehind t.commands.toList = some (t.blocks.map Block.shape) ∧
      (t.attrs.isAbstract = true → t.commands = #[]) := by
  cases h with
  | writing h | refused h | failed h | finished h =>
    exact ⟨h.history.openBehind_eq, h.history.commands_of_abstract⟩
  | generated => exact ⟨rfl, fun _ => rfl⟩

/-- In every session, whatever a method has been through, its text shows the nesting of its
commands, at whatever level it is written. Where no name that is shown has a line break in it, each
command has a line of the text. -/
theorem Session.lines_show_nesting {p : Project} {issued : List (Nat × Variable)}
    (h : Session Anything p issued) (ht : p.draft.methods[m]? = some t) {level : Nat}
    (hfit : level + 1 + t.commands.size < 2 ^ 31) (owner : String) :
    (t.attrs.isAbstract = true → t.commands = #[]) ∧
      ∃ lines, t.ShowsNesting (level + 1) lines ∧
        t.render level owner = Text.unlines (t.linesAround level owner lines) ∧
        ((∀ name ∈ t.shown owner, Text.OneLine name) →
          Text.lines (t.render level owner) = t.linesAround level owner lines) := by
  obtain ⟨hblocks, habstract⟩ := (h.lives _ (.refl _) m t ht).openBehind_eq
  have hrender := t.render_eq level owner
  refine ⟨habstract, _, t.showsNesting hblocks hfit, hrender, fun hnames => ?_⟩
  rw [hrender, Text.lines_unlines]
  refine MethodDef.oneLine_of_mem_linesAround hnames (MethodDef.oneLine_of_mem_commandLines _ ?_)
  exact fun x hx => MethodDef.oneLine_command hnames hx

/-- A loop with a conditional in a guarded block, and a body that was given up in its block. -/
def retried : List Request := [
  .perform (.defineType "Timer" {} none []),
  .perform (.defineMethod 0 "wait" { isStatic := true } .void [⟨"n", .int⟩]),
  .perform (.edit 0 (.whileBegin (.slot 0 0 "n" .int) .less (.constant (.i32 9)))),
  .perform (.edit 0 .tryBegin),
  .perform (.edit 0 (.ifBegin (.slot 0 0 "n" .int) .equal (.constant (.i32 3)))),
  .perform (.edit 0 .retVoid),
  .perform (.edit 0 .elseBegin),
  .perform (.bump 0 .add (.slot 0 0 "n" .int)),
  .perform (.edit 0 .endIf),
  .perform (.edit 0 (.catchBegin .string)),
  .perform (.edit 0 .endTry),
  .perform (.edit 0 .endWhile),
  .perform (.finalize 0),
  .perform (.defineMethod 0 "halt" { isStatic := true } .void []),
  .perform (.edit 1 .tryBegin),
  .perform (.edit 1 .endWhile)]

def retriedLines : List String :=
  ["private static void wait(int n) \x7b", "    while (n < 9) \x7b", "        try \x7b",
    "            if (n == 3) \x7b", "                return;", "            \x7d else \x7b",
    "                int __add1 = n + 1;", "                n = __add1;", "            \x7d",
    "        \x7d catch (string __ex2) \x7b", "        \x7d", "    \x7d", "\x7d"]

/-- Each of the commands has a line, with the loop's guard and what is in it further in. -/
theorem Session.lines_show_nesting_retried :
    ∃ p issued t t' lines lines',
      (Request.makeAll retried (⟨.empty "Timers" {}, .empty⟩, [])).1 = p ∧
      Session Anything p issued ∧
      p.draft.methods[0]? = some t ∧ t.attrs.isAbstract = false ∧ t.blocks = [] ∧
      t.ShowsNesting 1 lines ∧ t.linesAround 0 "Timer" lines = Text.lines (t.render 0 "Timer") ∧
      Text.lines (t.render 0 "Timer") = retriedLines ∧
      p.draft.methods[1]? = some t' ∧ t'.attrs.isAbstract = false ∧ t'.state = .aborted ∧
      t'.blocks = [.guarded false] ∧ t'.ShowsNesting 1 lines' ∧
      t'.linesAround 0 "Timer" lines' = Text.lines (t'.render 0 "Timer") ∧
      Text.lines (t'.render 0 "Timer") =
        ["private static void halt() \x7b", "    try \x7b", "\x7d"] := by
  obtain ⟨_, issued, t, rfl, h, ht, hconcrete, hblocks, hfit, hnames, htext⟩ :=
    Session.exists_makeAll retried "Timers" 0 (fun t => t.attrs.isAbstract = false ∧
      t.blocks = [] ∧ 0 + 1 + t.commands.size < 2 ^ 31 ∧
      (∀ name ∈ t.shown "Timer", Text.OneLine name) ∧
      Text.lines (t.render 0 "Timer") = retriedLines) (by decide +kernel)
  obtain ⟨_, _, t', rfl, -, ht', hconcrete', hstate', hblocks', hfit', hnames', htext'⟩ :=
    Session.exists_makeAll retried "Timers" 1 (fun t => t.attrs.isAbstract = false ∧
      t.state = .aborted ∧ t.blocks = [.guarded false] ∧ 0 + 1 + t.commands.size < 2 ^ 31 ∧
      (∀ name ∈ t.shown "Timer", Text.OneLine name) ∧ Text.lines (t.render 0 "Timer") =
        ["private static void halt() \x7b", "    try \x7b", "\x7d"]) (by decide +kernel)
  obtain ⟨-, lines, hshows, -, hlines⟩ := h.lines_show_nesting ht hfit "Timer"
  obtain ⟨-, lines', hshows', -, hlines'⟩ := h.lines_show_nesting ht' hfit' "Timer"
  exact ⟨_, issued, t, t', lines, lines', rfl, h, ht, hconcrete, hblocks, hshows,
    (hlines hnames).symm, htext, ht', hconcrete', hstate', hblocks', hshows',
    (hlines' hnames').symm, htext'⟩

def brokenName : List Request := [
  .perform (.defineType "Timer" {} none []),
  .perform (.defineMethod 0 "wait" { isStatic := true } .void []),
  .perform (.edit 0 (.createLocal "a;\n\x7d\nint b" .int))]

/-- A name with line breaks is shown as it is, so that one command can have several lines, which
stand anywhere. -/
theorem Session.one_command_of_several_lines :
    ∃ p issued t, (Request.makeAll brokenName (⟨.empty "Timers" {}, .empty⟩, [])).1 = p ∧
      Session Anything p issued ∧ p.draft.methods[0]? = some t ∧ t.commands.size = 1 ∧
      Text.lines (t.render 0 "Timer") =
        ["private static void wait() \x7b", "    int a;", "\x7d", "int b;", "\x7d"] ∧
      ∀ line, Text.lines (t.render 0 "Timer") ≠ t.linesAround 0 "Timer" [line] := by
  obtain ⟨_, issued, t, rfl, h, ht, hconcrete, hsize, htext⟩ :=
    Session.exists_makeAll brokenName "Timers" 0 (fun t => t.attrs.isAbstract = false ∧
      t.commands.size = 1 ∧ Text.lines (t.render 0 "Timer") =
        ["private static void wait() \x7b", "    int a;", "\x7d", "int b;", "\x7d"])
      (by decide +kernel)
  refine ⟨_, issued, t, rfl, h, ht, hsize, htext, fun line heq => ?_⟩
  have hlength := congrArg List.length heq
  rw [htext, MethodDef.linesAround, if_neg (Bool.eq_false_iff.mp hconcrete)] at hlength
  simp at hlength

end Bytesmith.Build
