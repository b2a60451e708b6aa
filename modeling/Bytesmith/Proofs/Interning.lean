import Mathlib.Data.List.Induction
import Bytesmith.Proofs.Reencoding
import Bytesmith.Proofs.Straight

namespace Bytesmith.Code.Pool

open Wire Outcome

/-- A pool that has come about by adding strings to the empty one or to one that was decoded. -/
inductive Built : Pool → Prop
  | empty : Built .empty
  | decoded {p : Pool} {r r' : Reader} (h : decode r = .ok p r') : Built p
  | add {p : Pool} (h : Built p) (s : String) : Built (p.add s).2

def noted (p : Pool) (index : String → Option UInt32) (s : String) : String → Option UInt32 :=
  fun t => if t = s then some ((index s).getD p.size.toUInt32) else index t

/-- A pool and the index of its strings, as they come about string by string. -/
inductive Indexed : Pool → (String → Option UInt32) → Prop
  | empty : Indexed .empty fun _ => none
  | add {p : Pool} {index : String → Option UInt32} (h : Indexed p index) (s : String) :
      Indexed (p.add s).2 (p.noted index s)

variable {p q : Pool} {s t : String} {index : String → Option UInt32} {i : UInt32}

theorem Indexed.exists_foldl (h : Indexed p index) (strings : List String) :
    ∃ index', Indexed (strings.foldl insert p) index' := by
  induction strings generalizing p index with
  | nil => exact ⟨index, h⟩
  | cons s strings ih => exact ih (h.add s)

theorem Built.exists_indexed (h : Built p) : ∃ index, Indexed p index := by
  induction h with
  | empty => exact ⟨_, .empty⟩
  | decoded h =>
    obtain ⟨strings, _, -, h⟩ := bind_eq_ok.mp h
    cases h
    exact Indexed.empty.exists_foldl strings
  | add _ s ih =>
    obtain ⟨index, h⟩ := ih
    exact ⟨_, h.add s⟩

theorem Indexed.nodup (h : Indexed p index) : p.strings.Nodup := by
  induction h with
  | empty => exact List.nodup_nil
  | add _ s ih => exact nodup_insert _ s ih

theorem Indexed.eq_idxOf? (h : Indexed p index) :
    index s = (p.strings.idxOf? s).map Nat.toUInt32 := by
  induction h generalizing s with
  | empty => rfl
  | @add p index h t ih =>
    rw [noted]
    by_cases hs : s = t
    · subst hs
      rw [if_pos rfl, ih]
      unfold Pool.add
      cases hi : p.strings.idxOf? s with
      | some i => simp only [hi, Option.map_some, Option.getD_some]
      | none =>
        rw [List.idxOf?, List.findIdx?_append, ← List.idxOf?, hi]
        simp [size]
    · rw [if_neg hs, ih]
      unfold Pool.add
      cases p.strings.idxOf? t with
      | some i => rfl
      | none =>
        have hlast : [t].idxOf? s = none := by
          rw [List.idxOf?_eq_none_iff, List.mem_singleton]
          exact hs
        rw [List.idxOf?] at hlast ⊢
        rw [List.findIdx?_append, hlast, Option.map_none, Option.or_none, ← List.idxOf?]

theorem idxOf?_eq_some_iff {strings : List String} (h : strings.Nodup) {i : Nat} :
    strings.idxOf? s = some i ↔ strings[i]? = some s := by
  constructor
  · intro hi
    obtain ⟨hlt, hat, -⟩ := List.findIdx?_eq_some_iff_getElem.mp hi
    rw [List.getElem?_eq_getElem hlt, beq_iff_eq.mp hat]
  · intro hi
    obtain ⟨hlt, rfl⟩ := List.getElem?_eq_some_iff.mp hi
    rw [List.idxOf?_eq_some_iff]
    exact ⟨hlt, rfl, fun j hj => by simpa using h.getElem_inj_iff.not.mpr (Nat.ne_of_lt hj)⟩

theorem Indexed.eq_some_iff (h : Indexed p index) (hsize : p.size < 2 ^ 32) :
    index s = some i ↔ p.get? i = some s := by
  rw [h.eq_idxOf?, Option.map_eq_some_iff, get?, ← idxOf?_eq_some_iff h.nodup]
  constructor
  · rintro ⟨j, hj, rfl⟩
    have hlt : j < p.size := (List.findIdx?_eq_some_iff_getElem.mp hj).1
    have hindex : j.toUInt32.toNat = j := Nat.mod_eq_of_lt (Nat.lt_trans hlt hsize)
    rw [hindex, hj]
  · intro hi
    exact ⟨i.toNat, hi, UInt32.ofNat_toNat⟩

theorem Indexed.add_eq (h : Indexed p index) (s : String) :
    p.add s = (index s).elim (p.size.toUInt32, ⟨p.strings ++ [s]⟩) (·, p) := by
  rw [h.eq_idxOf?, Pool.add]
  cases p.strings.idxOf? s <;> rfl

theorem Extends.get?_eq_some (h : q.Extends p) (hi : p.get? i = some s) : q.get? i = some s := by
  obtain ⟨more, hmore⟩ := h.isPrefix
  rw [get?] at hi ⊢
  rw [← hmore, List.getElem?_append_left (List.getElem?_eq_some_iff.mp hi).1, hi]

theorem get?_add (p : Pool) (s : String) (hsize : p.size < 2 ^ 32) :
    (p.add s).2.get? (p.add s).1 = some s := by
  obtain ⟨-, hmem, hindex⟩ := p.add_spec s (.refl _)
  rw [hindex]
  refine get?_indexOf hmem ?_
  have hlength := length_foldl_insert [s] p
  exact Nat.le_trans hlength hsize

theorem size_add (p : Pool) (s : String) :
    (p.add s).2.size = if s ∈ p.strings then p.size else p.size + 1 := by
  rw [size, ← insert, insert_strings]
  split <;> simp [size]

theorem strings_ofList (strings : List String) : (ofList strings).strings = strings.eraseDups := by
  induction strings using List.reverseRecOn with
  | nil => rfl
  | append_singleton strings s ih =>
    have hmem : s ∈ (ofList strings).strings ↔ s ∈ strings := by rw [ih, List.mem_eraseDups]
    have hlast : ofList (strings ++ [s]) = (ofList strings).insert s := List.foldl_concat ..
    rw [hlast, insert_strings, List.eraseDups_append]
    by_cases hs : s ∈ strings
    · rw [if_pos (hmem.mpr hs), ih]
      simp [List.removeAll, hs]
    · rw [if_neg (mt hmem.mp hs), ih]
      simp [List.removeAll, hs, List.eraseDups_cons]

theorem reads_list {strings : List String} (hlength : strings.length < 2 ^ 32)
    (hfits : ∀ s ∈ strings, TextFits s) :
    Reads decode (Wire.list text strings) ⟨strings.eraseDups⟩ := by
  have hreads := (Reads.list strings hlength fun s hs => Reads.text s (hfits s hs)).map ofList
  rwa [show ofList strings = ⟨strings.eraseDups⟩ from congrArg Pool.mk (strings_ofList strings)]
    at hreads

theorem reads_encode_iff (h : p.strings.Nodup) (hsize : p.size < 2 ^ 32) :
    Reads decode p.encode p ↔ ∀ s ∈ p.strings, TextFits s := by
  constructor
  · intro hreads
    exact (yields _ _ _ (hreads [] [])).each
  · intro hfits
    have hsame : (ofList p.strings).strings = p.strings := foldl_insert_of_nodup p.strings empty h
    exact p.reads ⟨⟨p.strings, congrArg Pool.mk hsame.symm⟩, hsize, hfits⟩

/-- However a pool has come about, its strings are distinct and indexed by where they stand. A
string that is added is found at its index from then on, and no other string moves. -/
theorem interning (h : Built p) (hsize : p.size < 2 ^ 32) :
    p.strings.Nodup ∧
    ((∃ index, Indexed p index) ∧ ∀ index, Indexed p index →
      (∀ s i, index s = some i ↔ p.get? i = some s) ∧
      ∀ s, p.add s = (index s).elim (p.size.toUInt32, ⟨p.strings ++ [s]⟩) (·, p)) ∧
    (∀ s q, Extends q (p.add s).2 → q.get? (p.add s).1 = some s ∧
      ∀ i t, p.get? i = some t → q.get? i = some t) ∧
    (∀ s, (p.add s).2.size = if s ∈ p.strings then p.size else p.size + 1) ∧
    (∀ strings : List String, strings.length < 2 ^ 32 → (∀ s ∈ strings, TextFits s) →
      Reads decode (Wire.list text strings) ⟨strings.eraseDups⟩) ∧
    (Reads decode p.encode p ↔ ∀ s ∈ p.strings, TextFits s) := by
  obtain ⟨index, hindex⟩ := h.exists_indexed
  refine ⟨hindex.nodup, ⟨⟨index, hindex⟩, fun index' h' => ?_⟩, fun s q hq => ?_, p.size_add,
    fun strings => reads_list, reads_encode_iff hindex.nodup hsize⟩
  · exact ⟨fun s i => h'.eq_some_iff hsize, h'.add_eq⟩
  · exact ⟨hq.get?_eq_some (p.get?_add s hsize),
      fun i t hi => (hq.trans (p.extends_add s)).get?_eq_some hi⟩

/-- A pool that was decoded from three strings, one of them twice, and has got one more. -/
theorem interning_repeated : ∃ p : Pool, Built p ∧ p.size < 2 ^ 32 ∧ p.strings = ["b", "a", ""] ∧
    (∃ index, Indexed p index ∧ index "a" = some 1 ∧ index "c" = none) ∧
    (p.add "a").2.size = 3 ∧ (p.add "c").2.size = 4 ∧
    (∀ q : Pool, q.Extends (p.add "c").2 → q.get? 3 = some "c" ∧ q.get? 1 = some "a") ∧
    Reads decode p.encode p := by
  have hreads : Reads decode (Wire.list text ["b", "a", "b"]) ⟨["b", "a", "b"].eraseDups⟩ :=
    reads_list (by decide) (by decide)
  have hb : Built ⟨["b", "a"]⟩ := .decoded (hreads [] [])
  obtain ⟨-, ⟨⟨index, hindex⟩, hall⟩, hadd, hsize, -, hencode⟩ :=
    interning (p := ⟨["b", "a", ""]⟩) (hb.add "") (by decide)
  refine ⟨_, hb.add "", by decide, by decide, ⟨index, hindex, ?_, ?_⟩, ?_, ?_, fun q hq => ?_, ?_⟩
  · exact ((hall index hindex).1 _ _).mpr (by decide)
  · rw [Option.eq_none_iff_forall_ne_some]
    intro i hi
    have hget := ((hall index hindex).1 _ _).mp hi
    rw [get?] at hget
    exact absurd (List.mem_of_getElem? hget) (by decide)
  · exact (hsize "a").trans (by decide)
  · exact (hsize "c").trans (by decide)
  · exact ⟨(hadd "c" q hq).1, (hadd "c" q hq).2 1 "a" (by decide)⟩
  · exact hencode.mpr (by decide)

end Bytesmith.Code.Pool
