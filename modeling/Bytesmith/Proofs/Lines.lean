import Bytesmith.Build.Listing

namespace Bytesmith.Text

/-- What stands before the line breaks of a text, each part by itself. -/
def lines (s : String) : List String := ((s.toList.splitOn '\n').map String.ofList).dropLast

def OneLine (s : String) : Prop := '\n' ∉ s.toList

instance (s : String) : Decidable (OneLine s) := inferInstanceAs (Decidable ('\n' ∉ s.toList))

section

variable {s t : String} {l : List Char} {ls : List String} {n base : Nat}

@[simp] theorem oneLine_append : OneLine (s ++ t) ↔ OneLine s ∧ OneLine t := by
  simp [OneLine]

@[simp] theorem oneLine_ofList : OneLine (String.ofList l) ↔ '\n' ∉ l := by
  simp [OneLine]

theorem oneLine_join (h : ∀ s ∈ ls, OneLine s) : OneLine (String.join ls) := by
  rw [OneLine, String.toList_join, List.mem_flatMap]
  rintro ⟨s, hs, hbreak⟩
  exact h s hs hbreak

theorem oneLine_intercalate (hs : OneLine s) (h : ∀ t ∈ ls, OneLine t) :
    OneLine (s.intercalate ls) := by
  induction ls with
  | nil => exact List.not_mem_nil
  | cons t ls ih =>
    obtain ⟨ht, hls⟩ := List.forall_mem_cons.mp h
    cases ls with
    | nil => simpa using ht
    | cons u ls => simp [ht, hs, ih hls]

theorem oneLine_indent (level : Nat) : OneLine (indent level) :=
  oneLine_join fun s hs => List.eq_of_mem_replicate hs ▸ (by decide)

theorem unlines_cons (s : String) (ls : List String) :
    unlines (s :: ls) = s ++ "\n" ++ unlines ls := by
  rw [unlines, List.map_cons, String.join_cons, ← unlines]

theorem unlines_append (ls ls' : List String) : unlines (ls ++ ls') = unlines ls ++ unlines ls' := by
  rw [unlines, List.map_append, String.join_append, ← unlines, ← unlines]

theorem splitOn_unlines (h : ∀ s ∈ ls, OneLine s) :
    (unlines ls).toList.splitOn '\n' = ls.map String.toList ++ [[]] := by
  induction ls with
  | nil => rfl
  | cons s ls ih =>
    obtain ⟨hs, hls⟩ := List.forall_mem_cons.mp h
    have htext : (unlines (s :: ls)).toList = s.toList ++ '\n' :: (unlines ls).toList := by
      simp [unlines_cons]
    rw [htext, List.splitOn_append_cons_self_of_not_mem hs, ih hls, List.map_cons, List.cons_append]

theorem lines_unlines (h : ∀ s ∈ ls, OneLine s) : lines (unlines ls) = ls := by
  simp [lines, splitOn_unlines h]

theorem digitChar_ne_break (h : n < 16) : Nat.digitChar n ≠ '\n' := by
  revert n
  decide

theorem break_notMem_toDigits (hbase : 1 < base) (hle : base ≤ 16) (n : Nat) :
    '\n' ∉ Nat.toDigits base n := by
  induction n using Nat.strongRecOn with
  | ind n ih =>
    by_cases hn : n < base
    · rw [Nat.toDigits_of_lt_base hn, List.mem_singleton]
      exact (digitChar_ne_break (Nat.lt_of_lt_of_le hn hle)).symm
    · have hlast : n % base < 16 := Nat.lt_of_lt_of_le (Nat.mod_lt n (by omega)) hle
      rw [Nat.toDigits_of_base_le hbase (Nat.le_of_not_lt hn), List.mem_append, List.mem_singleton]
      rintro (hmem | hmem)
      · exact ih (n / base) (Nat.div_lt_self (by omega) hbase) hmem
      · exact digitChar_ne_break hlast hmem.symm

theorem oneLine_repr (n : Nat) : OneLine n.repr := by
  rw [Nat.repr, oneLine_ofList]
  exact break_notMem_toDigits (by decide) (by decide) n

theorem oneLine_toString (n : Int) : OneLine (toString n) := by
  cases n with
  | ofNat n => exact oneLine_repr n
  | negSucc n => exact oneLine_append.mpr ⟨by decide, oneLine_repr _⟩

theorem oneLine_quotedChar (c : Char) : OneLine (quotedChar c) := by
  by_cases hc : c = '\n'
  · subst hc
    decide
  have hchar : OneLine c.toString := by
    simpa [OneLine] using Ne.symm hc
  have hcode : OneLine ("\\u\x7b" ++ hex c.toNat ++ "\x7d") := by
    simp only [oneLine_append, hex, oneLine_ofList]
    exact ⟨⟨by decide, break_notMem_toDigits (by decide) (by decide) _⟩, by decide⟩
  rw [quotedChar]
  repeat' split
  all_goals first
    | decide
    | exact hchar
    | exact hcode

theorem oneLine_quoted (s : String) : OneLine (quoted s) := by
  refine oneLine_append.mpr ⟨oneLine_append.mpr ⟨by decide, oneLine_join fun t ht => ?_⟩, by decide⟩
  obtain ⟨c, -, rfl⟩ := List.mem_map.mp ht
  exact oneLine_quotedChar c

end

end Bytesmith.Text

namespace Bytesmith.Double

open Text Decimal

theorem break_notMem_significant (d : Numeral) : '\n' ∉ significant d := by
  intro hmem
  rw [significant, List.mem_reverse] at hmem
  exact break_notMem_toDigits (by decide) (by decide) d.digits
    (List.mem_reverse.mp ((List.dropWhile_sublist _).mem hmem))

theorem oneLine_positional {digits : List Char} (h : '\n' ∉ digits) (lead : Int) :
    OneLine (positional digits lead) := by
  have hzeros (n : Nat) : '\n' ∉ List.replicate n '0' := by simp
  have htake (n : Nat) : '\n' ∉ digits.take n := fun hmem => h (List.mem_of_mem_take hmem)
  have hdrop (n : Nat) : '\n' ∉ digits.drop n := fun hmem => h (List.mem_of_mem_drop hmem)
  rw [positional]
  split
  · simp only [oneLine_append, oneLine_ofList]
    exact ⟨⟨by decide, hzeros _⟩, h⟩
  · dsimp only
    split
    · simp only [oneLine_append, oneLine_ofList]
      exact ⟨⟨h, hzeros _⟩, by decide⟩
    · simp only [oneLine_append, oneLine_ofList]
      exact ⟨⟨htake _, by decide⟩, hdrop _⟩

theorem oneLine_scientific {digits : List Char} (h : '\n' ∉ digits) (lead : Int) :
    OneLine (scientific digits lead) := by
  have htail : OneLine (if (digits.drop 1).isEmpty then "" else
      "." ++ String.ofList (digits.drop 1)) := by
    split
    · decide
    · exact oneLine_append.mpr ⟨by decide,
        oneLine_ofList.mpr fun hmem => h (List.mem_of_mem_drop hmem)⟩
  simp only [scientific, oneLine_append, oneLine_ofList]
  exact ⟨⟨⟨fun hmem => h (List.mem_of_mem_take hmem), htail⟩, by decide⟩, oneLine_toString lead⟩

theorem oneLine_magnitudeText (x : Double) : OneLine x.magnitudeText := by
  rw [magnitudeText]
  split
  · decide
  · dsimp only
    split
    · exact oneLine_positional (break_notMem_significant _) _
    · exact oneLine_scientific (break_notMem_significant _) _

theorem oneLine_text (x : Double) : OneLine x.text := by
  have hsign : OneLine (if x.isNegative then "-" else "") := by
    split <;> decide
  rw [text]
  split
  · decide
  · dsimp only
    split
    · exact oneLine_append.mpr ⟨hsign, by decide⟩
    · exact oneLine_append.mpr ⟨hsign, x.oneLine_magnitudeText⟩

end Bytesmith.Double

namespace Bytesmith.Build

open Text

def StaticType.shown : StaticType → List String
  | .class _ name | .enum _ name => [name]
  | _ => []

def Literal.shown : Literal → List String
  | .enum ty member _ => member :: ty.shown
  | _ => []

def Member.shown (m : Member) : List String := m.name :: m.ty.shown

def Variable.shown : Variable → List String
  | .slot _ _ name ty => name :: ty.shown
  | .constant value => value.shown ++ value.ty.shown
  | .own m => m.shown
  | .of object m => object.shown ++ m.shown
  | .shared type m => type :: m.shown

def Condition.shown (c : Condition) : List String := c.left.shown ++ c.right.shown

def Argument.shown (a : Argument) : List String := a.paramType.shown ++ a.value.shown

def Command.shown : Command → List String
  | .arithmetic _ left right _ result => left.shown ++ right.shown ++ result.shown
  | .assign target source _ => target.shown ++ target.ty.shown ++ source.shown
  | .newObject type _ args result => type.shown ++ args.flatMap Argument.shown ++ result.shown
  | .call target receiver args result =>
    target.name :: target.owner.shown ++ receiver.toList.flatMap Variable.shown ++
      args.flatMap Argument.shown ++ result.toList.flatMap Variable.shown
  | .box value result => value.shown ++ result.shown
  | .unbox value ty result | .cast value ty result => value.shown ++ ty.shown ++ result.shown
  | .raise value => value.shown
  | .defineLocal v | .catchBegin _ v => v.shown
  | .ifBegin c _ _ | .elseIf c _ _ _ | .whileBegin c _ _ => c.shown
  | .ret (some (value, _)) returnType => value.shown ++ returnType.shown
  | _ => []

theorem StaticType.oneLine_text {ty : StaticType} (h : ∀ s ∈ ty.shown, OneLine s) :
    OneLine ty.text := by
  cases ty with
  | «class» | enum => exact h _ (.head _)
  | _ => decide

theorem Literal.oneLine_text {l : Literal} (h : ∀ s ∈ l.shown, OneLine s) : OneLine l.text := by
  cases l with
  | null => decide
  | bool b => cases b <;> decide
  | i32 n => exact oneLine_toString n.toInt
  | i64 n => exact oneLine_append.mpr ⟨oneLine_toString n.toInt, by decide⟩
  | f64 x => exact x.oneLine_text
  | string s => exact oneLine_quoted s
  | enum ty member =>
    obtain ⟨hmember, hty⟩ := List.forall_mem_cons.mp h
    exact oneLine_append.mpr ⟨oneLine_append.mpr ⟨StaticType.oneLine_text hty, by decide⟩, hmember⟩

theorem Variable.oneLine_ty {v : Variable} (h : ∀ s ∈ v.shown, OneLine s) : OneLine v.ty.text := by
  refine StaticType.oneLine_text fun s hs => h s ?_
  cases v with
  | slot | own => exact .tail _ hs
  | constant => exact List.mem_append_right _ hs
  | of => exact List.mem_append_right _ (.tail _ hs)
  | shared => exact .tail _ (.tail _ hs)

theorem Variable.oneLine_name {v : Variable} (h : ∀ s ∈ v.shown, OneLine s) : OneLine v.name := by
  cases v with
  | slot | own => exact h _ (.head _)
  | constant => exact Literal.oneLine_text fun s hs => h s (List.mem_append_left _ hs)
  | of => exact h _ (List.mem_append_right _ (.head _))
  | shared => exact h _ (.tail _ (.head _))

theorem Variable.oneLine_text {v : Variable} (h : ∀ s ∈ v.shown, OneLine s) : OneLine v.text := by
  induction v with
  | slot | own => exact h _ (.head _)
  | constant => exact Literal.oneLine_text fun s hs => h s (List.mem_append_left _ hs)
  | of object m ih =>
    have hobject := ih fun s hs => h s (List.mem_append_left _ hs)
    have hname := h m.name (List.mem_append_right _ (.head _))
    exact oneLine_append.mpr ⟨oneLine_append.mpr ⟨hobject, by decide⟩, hname⟩
  | shared type m =>
    obtain ⟨htype, hm⟩ := List.forall_mem_cons.mp h
    exact oneLine_append.mpr ⟨oneLine_append.mpr ⟨htype, by decide⟩, hm _ (.head _)⟩

theorem Variable.oneLine_definition {v : Variable} (h : ∀ s ∈ v.shown, OneLine s) :
    OneLine v.definition := by
  have hty := v.oneLine_ty h
  have hname := v.oneLine_name h
  cases v with
  | constant value =>
    have hty : OneLine value.ty.text := hty
    have htext : OneLine value.text := hname
    simp +decide [definition, toString, hty, htext]
  | _ => exact oneLine_append.mpr ⟨oneLine_append.mpr ⟨hty, by decide⟩, hname⟩

theorem Condition.oneLine_text {c : Condition} (h : ∀ s ∈ c.shown, OneLine s) : OneLine c.text := by
  obtain ⟨hleft, hright⟩ := List.forall_mem_append.mp h
  have hsymbol : OneLine c.comparison.symbol := by
    cases c.comparison <;> decide
  simp +decide [text, toString, Variable.oneLine_text hleft, Variable.oneLine_text hright, hsymbol]

theorem Coercion.oneLine_text {c : Coercion} {ty : StaticType} {s : String}
    (hty : ∀ s ∈ ty.shown, OneLine s) (hs : OneLine s) : OneLine (c.text ty s) := by
  have hty := StaticType.oneLine_text hty
  cases c <;> simp +decide [text, toString, hs, hty]

theorem Argument.oneLine_listText {args : List Argument}
    (h : ∀ s ∈ args.flatMap Argument.shown, OneLine s) : OneLine (Argument.listText args) := by
  refine oneLine_intercalate (by decide) fun s hs => ?_
  obtain ⟨a, ha, rfl⟩ := List.mem_map.mp hs
  have hshown : ∀ s ∈ a.shown, OneLine s := fun s hs => h s (List.mem_flatMap.mpr ⟨a, ha, hs⟩)
  obtain ⟨hty, hvalue⟩ := List.forall_mem_append.mp hshown
  exact Coercion.oneLine_text hty (Variable.oneLine_text hvalue)

theorem Command.oneLine_text {c : Command} (h : ∀ s ∈ c.shown, OneLine s) : OneLine c.text := by
  cases c with
  | arithmetic op left right ty result =>
    simp only [shown, List.forall_mem_append] at h
    have hsymbol : OneLine op.symbol := by
      cases op <;> decide
    simp +decide [text, toString, Variable.oneLine_text h.1.1, Variable.oneLine_text h.1.2,
      Variable.oneLine_definition h.2, hsymbol]
  | assign target source coercion =>
    simp only [shown, List.forall_mem_append] at h
    simp +decide [text, toString, Variable.oneLine_text h.1.1,
      Coercion.oneLine_text h.1.2 (Variable.oneLine_text h.2)]
  | newObject type constructor args result =>
    simp only [shown, List.forall_mem_append] at h
    simp +decide [text, toString, StaticType.oneLine_text h.1.1, Argument.oneLine_listText h.1.2,
      Variable.oneLine_definition h.2]
  | call target receiver args result =>
    simp only [shown, List.forall_mem_append, List.cons_append, List.forall_mem_cons] at h
    obtain ⟨hname, ⟨⟨howner, hreceiver⟩, hargs⟩, hresult⟩ := h
    have hargs := Argument.oneLine_listText hargs
    have hassigned : OneLine ((result.map fun r => r.definition ++ " = ").getD "") := by
      cases result with
      | none => decide
      | some r =>
        rw [Option.toList_some, List.flatMap_singleton] at hresult
        exact oneLine_append.mpr ⟨Variable.oneLine_definition hresult, by decide⟩
    have hcallee : OneLine ((receiver.map Variable.text).getD target.owner.text) := by
      cases receiver with
      | none => exact StaticType.oneLine_text howner
      | some r =>
        rw [Option.toList_some, List.flatMap_singleton] at hreceiver
        exact Variable.oneLine_text hreceiver
    cases hbase : target.isConstructor with
    | true => simp +decide [text, toString, hbase, hassigned, hargs]
    | false => simp +decide [text, toString, hbase, hassigned, hcallee, hname, hargs]
  | box value result =>
    obtain ⟨hvalue, hresult⟩ := List.forall_mem_append.mp h
    simp +decide [text, toString, Variable.oneLine_text hvalue, Variable.oneLine_definition hresult]
  | unbox value ty result | cast value ty result =>
    simp only [shown, List.forall_mem_append] at h
    simp +decide [text, toString, Variable.oneLine_text h.1.1, StaticType.oneLine_text h.1.2,
      Variable.oneLine_definition h.2]
  | raise value => simp +decide [text, toString, Variable.oneLine_text h]
  | defineLocal v | catchBegin ty v => simp +decide [text, toString, Variable.oneLine_definition h]
  | ifBegin c | elseIf c | whileBegin c => simp +decide [text, toString, Condition.oneLine_text h]
  | elseBegin | endIf | endWhile | tryBegin | endTry => simp +decide [text]
  | ret value returnType =>
    cases value with
    | none => simp +decide [text]
    | some value =>
      obtain ⟨hvalue, hty⟩ := List.forall_mem_append.mp h
      simp +decide [text, toString, Coercion.oneLine_text hty (Variable.oneLine_text hvalue)]

namespace MethodDef

def shown (t : MethodDef) (owner : String) : List String :=
  owner :: t.name :: t.returnType.shown ++ t.params.flatMap (fun p => p.name :: p.ty.shown) ++
    t.commands.toList.flatMap (·.command.shown)

variable {t : MethodDef} {owner : String}

theorem oneLine_header (h : ∀ s ∈ t.shown owner, OneLine s) : OneLine (t.header owner) := by
  simp only [shown, List.cons_append, List.forall_mem_cons, List.forall_mem_append] at h
  obtain ⟨howner, hname, ⟨hreturn, hparams⟩, -⟩ := h
  have hreturn := StaticType.oneLine_text hreturn
  have hwords : OneLine
      (modifiers [(t.attrs.isStatic, "static"), (t.attrs.isAbstract, "abstract")]) := by
    cases t.attrs.isStatic <;> cases t.attrs.isAbstract <;> decide
  have hvisibility : OneLine (visibility t.attrs.isPublic) := by
    cases t.attrs.isPublic <;> decide
  have hlist : OneLine (", ".intercalate (t.params.map fun p => p.ty.text ++ " " ++ p.name)) := by
    refine oneLine_intercalate (by decide) fun s hs => ?_
    obtain ⟨p, hp, rfl⟩ := List.mem_map.mp hs
    have hshown : ∀ s ∈ p.name :: p.ty.shown, OneLine s :=
      fun s hs => hparams s (List.mem_flatMap.mpr ⟨p, hp, hs⟩)
    obtain ⟨hname, hty⟩ := List.forall_mem_cons.mp hshown
    simp +decide [hname, StaticType.oneLine_text hty]
  cases hmakes : t.isConstructor <;>
    simp +decide [header, toString, hmakes, hwords, hvisibility, hlist, howner, hname, hreturn]

theorem oneLine_command (h : ∀ s ∈ t.shown owner, OneLine s) {e : Emitted}
    (he : e ∈ t.commands.toList) : OneLine e.command.text :=
  Command.oneLine_text fun s hs =>
    h s (List.mem_append_right _ (List.mem_flatMap.mpr ⟨e, he, hs⟩))

end MethodDef

end Bytesmith.Build
