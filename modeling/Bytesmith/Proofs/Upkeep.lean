import Bytesmith.Proofs.Members

namespace Bytesmith.Build

open Code Outcome

variable {Allowed : List (Nat × Variable) → Nat → Variable → Prop}
  {G : Draft → List (Nat × Variable) → Nat → Variable → Prop}
  {U : Draft → List (Nat × Variable) → Nat → MethodDef → Command → Prop}
  {d d' : Draft} {issued issued' : List (Nat × Variable)}

structure Course.Onto (Allowed : List (Nat × Variable) → Nat → Variable → Prop) (d : Draft)
    (issued : List (Nat × Variable)) (d' : Draft) (issued' : List (Nat × Variable)) : Prop where
  course : Course Allowed d issued
  retains : d.Retains d'
  grows : d.Grows d'
  kept : ∀ x ∈ issued, x ∈ issued'

structure Upkeep (G : Draft → List (Nat × Variable) → Nat → Variable → Prop)
    (U : Draft → List (Nat × Variable) → Nat → MethodDef → Command → Prop) (d : Draft)
    (issued : List (Nat × Variable)) : Prop where
  given : ∀ m v, (m, v) ∈ issued → G d issued m v
  used : ∀ (m : Nat) (t : MethodDef), d.methods[m]? = some t →
    ∀ c ∈ t.commands, U d issued m t c.command

theorem Edited.found_after {m : Nat} {c : Command} {t t' : MethodDef}
    (h : Edited m c t t' d d') : d'.methods[m]? = some t' := by
  obtain ⟨n, heq⟩ := h.eq
  rw [heq]
  exact Draft.found_edited (Draft.lt_size_of_found h.found)

theorem Course.history_of_edited {m : Nat} {c : Command} {t t' : MethodDef}
    (h : Course Allowed d issued) (he : Edited m c t t' d d') : History d'.constants m t :=
  (h.settled he.found he.grows).history
    (MethodDef.state_of_ensureOpen (he.takes _ (.refl _)).isOpen).1

theorem Course.upkeep (h : Course Allowed d issued)
    (hgiven : ∀ {d d' issued issued' m v}, Course.Onto Allowed d issued d' issued' →
      G d issued m v → G d' issued' m v)
    (hused : ∀ {d d' issued issued' m t t' c}, Course.Onto Allowed d issued d' issued' →
      d.methods[m]? = some t → d'.methods[m]? = some t' → U d issued m t c → U d' issued' m t' c)
    (hlook : ∀ {d issued m v} (l : Lookup), Course Allowed d issued → Upkeep G U d issued →
      (∀ o ∈ l.operands, Allowed issued m o) → l.find d m = .ok v → G d ((m, v) :: issued) m v)
    (hedit : ∀ {d d' issued m t t' c} (e : Edit), Course Allowed d issued → Upkeep G U d issued →
      (∀ o ∈ e.operands, Allowed issued m o) → e.Stands d m t c → Edited m c t t' d d' →
      (∀ v, c.result? = some v → G d' (c.result?.toList.map (m, ·) ++ issued) m v) ∧
        U d' (c.result?.toList.map (m, ·) ++ issued) m t' c) : Upkeep G U d issued := by
  -- a step that gives nothing out and adds no command
  have hkeep {d d' : Draft} {issued : List (Nat × Variable)} (h : Course Allowed d issued)
      (ih : Upkeep G U d issued) (hr : d.Retains d') (hg : d.Grows d')
      (hsame : ∀ (m : Nat) (t' : MethodDef), d'.methods[m]? = some t' →
        t'.commands = #[] ∨ ∃ t, d.methods[m]? = some t ∧ t'.commands = t.commands) :
      Upkeep G U d' issued := by
    have hon : Course.Onto Allowed d issued d' issued := ⟨h, hr, hg, fun _ hx => hx⟩
    refine ⟨fun m v hv => hgiven hon (ih.given m v hv), fun m t' ht' c hc => ?_⟩
    obtain hnone | ⟨t, ht, hcommands⟩ := hsame m t' ht'
    · rw [hnone] at hc
      exact absurd hc (Array.not_mem_empty c)
    · exact hused hon ht ht' (ih.used m t ht c (hcommands ▸ hc))
  have hended {d : Draft} {m : Nat} {t t' : MethodDef} (hfound : d.methods[m]? = some t)
      (i : Nat) (s : MethodDef) (hsame : t'.commands = t.commands)
      (hs : (d.edited m t' d.constants d.nameCount).methods[i]? = some s) :
      s.commands = #[] ∨ ∃ t, d.methods[i]? = some t ∧ s.commands = t.commands := by
    obtain ⟨rfl, rfl⟩ | ⟨-, hold⟩ := Draft.edited_cases hs
    · exact .inr ⟨t, hfound, hsame⟩
    · exact .inr ⟨s, hold, rfl⟩
  induction h with
  | start name options =>
    refine ⟨fun m v hv => ?_, fun m t ht => ?_⟩
    · cases hv
    · cases ht
  | declare h hd ih =>
    refine hkeep h ih hd.retains hd.grows fun m t ht => ?_
    obtain hold | ⟨-, owner, name, attrs, returnType, params, isConstructor, rfl⟩ := hd.found ht
    · exact .inr ⟨t, hold, rfl⟩
    · exact .inl rfl
  | @look d issued m v h l ho hl ih =>
    have hon : Course.Onto Allowed d issued d ((m, v) :: issued) :=
      ⟨h, Draft.Redeclares.retains ⟨rfl, rfl, rfl, fun _ => rfl⟩, .refl d,
        fun _ => .tail _⟩
    refine ⟨fun k w hw => ?_, fun k t ht c hc => hused hon ht ht (ih.used k t ht c hc)⟩
    obtain hw | hw := List.mem_cons.mp hw
    · cases hw
      exact hlook l h ih ho hl
    · exact hgiven hon (ih.given k w hw)
  | @edit d d' issued m t t' c h e ho hs he ih =>
    have hon : Course.Onto Allowed d issued d' (c.result?.toList.map (m, ·) ++ issued) :=
      ⟨h, he.redeclares.retains, he.draft_grows, fun _ => List.mem_append_right _⟩
    obtain ⟨hresult, hcommand⟩ := hedit e h ih ho hs he
    refine ⟨fun k w hw => ?_, fun k s hs' c' hc' => ?_⟩
    · obtain hw | hw := List.mem_append.mp hw
      · obtain ⟨v, hv, hpair⟩ := List.mem_map.mp hw
        cases hpair
        exact hresult w (Option.mem_toList.mp hv)
      · exact hgiven hon (ih.given k w hw)
    · have hcases := hs'
      obtain ⟨n, heq⟩ := he.eq
      rw [heq] at hcases
      obtain ⟨rfl, rfl⟩ | ⟨-, hs⟩ := Draft.edited_cases hcases
      · rw [(he.takes _ (.refl _)).commands_eq] at hc'
        obtain hc' | rfl := Array.mem_push.mp hc'
        · exact hused hon he.found hs' (ih.used _ t he.found c' hc')
        · exact hcommand
      · exact hused hon hs hs' (ih.used k s hs c' hc')
  | @abort d d' issued m h ha ih =>
    refine hkeep h ih ha.redeclares.retains ha.grows fun i t ht => .inr ?_
    obtain rfl | ⟨htouches, s, hs, -, s', hs', -, hcommands⟩ := ha
    · exact ⟨t, ht, rfl⟩
    · by_cases hi : i = m
      · subst hi
        cases hs'.symm.trans ht
        exact ⟨s, hs, hcommands⟩
      · exact ⟨t, (htouches.others i hi).symm.trans ht, rfl⟩
  | finish h hfound hopen hblocks hf ih =>
    exact hkeep h ih (Draft.redeclares_edited hfound (by rfl)).retains (.ended hfound hopen rfl rfl)
      fun i s hs => hended hfound i s (by rfl) hs
  | synthesize h hfound hnew hfield hcode hf ih =>
    exact hkeep h ih (Draft.redeclares_edited hfound (by rfl)).retains
      (.ended hfound hnew.1 rfl rfl) fun i s hs => hended hfound i s (by rfl) hs
  | @create d issued h module ih =>
    exact hkeep h ih (Draft.Redeclares.retains ⟨rfl, rfl, rfl, fun _ => rfl⟩)
      ⟨fun i t ht => ⟨t, ht, rfl⟩, .refl _, fun i t ht => ⟨t, ht, .refl t⟩⟩
      fun i t ht => .inr ⟨t, ht, rfl⟩

end Bytesmith.Build
