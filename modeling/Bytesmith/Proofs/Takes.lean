import Bytesmith.Code.Format
import Bytesmith.Proofs.Outcome
import Bytesmith.Proofs.Reads

namespace Bytesmith.Wire

open Outcome

/-- Computations that see their data only through the bytes they take and the position. -/
inductive Takes {α : Type} : ReadM α → Prop
  | pure (a : α) : Takes (Pure.pure a)
  | throw (e : DecodeError) : Takes (MonadExcept.throw e)
  | position {f : Nat → ReadM α} (h : ∀ n, Takes (f n)) : Takes (ReadM.position >>= f)
  | take (n : Nat) {f : List UInt8 → ReadM α} (h : ∀ bytes, Takes (f bytes)) :
    Takes (ReadM.take n >>= f)

theorem take_between (n : Nat) (before bytes : List UInt8) :
    ReadM.take n (.between before bytes) =
      if n ≤ bytes.length then
        .ok (bytes.take n) (.between (before ++ bytes.take n) (bytes.drop n))
      else .error (.unexpectedEof before.length n) (.between before bytes) := by
  by_cases h : n ≤ bytes.length
  · have hn : (bytes.take n).length = n := List.length_take_of_le h
    have ht := Reads.take (bytes.take n) before (bytes.drop n)
    rw [List.take_append_drop, hn] at ht
    rw [if_pos h, ht]
  · have hfit : ¬ before.length + n ≤ (before ++ bytes).toArray.size := by
      simp only [List.size_toArray, List.length_append]
      omega
    rw [if_neg h]
    simp only [ReadM.take, Reader.between, hfit, if_false]

namespace Takes

variable {α β : Type}

theorem bind {x : ReadM α} {f : α → ReadM β} (hx : Takes x) (hf : ∀ a, Takes (f a)) :
    Takes (x >>= f) := by
  induction hx with
  | pure a => exact hf a
  | throw e => exact throw e
  | position _ ih =>
    rw [bind_assoc]
    exact position ih
  | take n _ ih =>
    rw [bind_assoc]
    exact take n ih

theorem map {x : ReadM α} (hx : Takes x) (f : α → β) : Takes (x >>= fun a => Pure.pure (f a)) :=
  hx.bind fun a => pure (f a)

theorem taking (n : Nat) : Takes (ReadM.take n) := by
  have h := take n (f := Pure.pure) pure
  rwa [bind_pure] at h

theorem split {x : ReadM α} (hx : Takes x) {before bytes : List UInt8} {a : α} {r : Reader}
    (h : x (.between before bytes) = .ok a r) :
    ∃ used rest, bytes = used ++ rest ∧ r = .between (before ++ used) rest ∧
      ∀ before' rest', before'.length = before.length →
        x (.between before' (used ++ rest')) = .ok a (.between (before' ++ used) rest') := by
  induction hx generalizing before bytes with
  | pure b =>
    cases h
    refine ⟨[], bytes, rfl, by rw [List.append_nil], fun before' rest' _ => ?_⟩
    rw [List.append_nil]
    rfl
  | throw e => cases h
  | position _ ih =>
    obtain ⟨used, rest, hbytes, hr, hall⟩ := ih before.length h
    refine ⟨used, rest, hbytes, hr, fun before' rest' hlen => ?_⟩
    have h' := hall before' rest' hlen
    rw [← hlen] at h'
    exact h'
  | take n _ ih =>
    obtain ⟨taken, r', htake, h⟩ := bind_eq_ok.mp h
    rw [take_between] at htake
    by_cases hn : n ≤ bytes.length
    · rw [if_pos hn] at htake
      cases htake
      obtain ⟨used, rest, hbytes, hr, hall⟩ := ih (bytes.take n) h
      refine ⟨bytes.take n ++ used, rest, ?_, by rw [hr, List.append_assoc], ?_⟩
      · rw [List.append_assoc, ← hbytes, List.take_append_drop]
      · intro before' rest' hlen
        have hn' : (bytes.take n).length = n := List.length_take_of_le hn
        have htake' := Reads.take (bytes.take n) before' (used ++ rest')
        have hlen' : (before' ++ bytes.take n).length = (before ++ bytes.take n).length := by
          rw [List.length_append, List.length_append, hlen]
        rw [hn'] at htake'
        rw [List.append_assoc, bind_of_ok htake', hall _ rest' hlen', List.append_assoc]
    · rw [if_neg hn] at htake
      cases htake

theorem error_append {x : ReadM α} (hx : Takes x) {before bytes : List UInt8} {e : DecodeError}
    {r : Reader} (h : x (.between before bytes) = .error e r)
    (he : ∀ offset needed, e ≠ .unexpectedEof offset needed) (more : List UInt8) :
    ∃ r', x (.between before (bytes ++ more)) = .error e r' := by
  induction hx generalizing before bytes with
  | pure b => cases h
  | throw e' =>
    cases h
    exact ⟨_, rfl⟩
  | position _ ih => exact ih before.length h
  | take n _ ih =>
    by_cases hn : n ≤ bytes.length
    · have htake := take_between n before bytes
      rw [if_pos hn] at htake
      rw [bind_of_ok htake] at h
      obtain ⟨r', hr'⟩ := ih _ h
      have hmore := take_between n before (bytes ++ more)
      rw [if_pos (by rw [List.length_append]; omega), List.take_append_of_le_length hn,
        List.drop_append_of_le_length hn] at hmore
      exact ⟨r', by rw [bind_of_ok hmore, hr']⟩
    · have htake := take_between n before bytes
      rw [if_neg hn] at htake
      rw [bind_of_error htake] at h
      cases h
      exact absurd rfl (he _ _)

theorem truncated {x : ReadM α} (hx : Takes x) {bytes : List UInt8} {a : α}
    (hr : Reads x bytes a) {part : List UInt8} (hpart : part <+: bytes) (hne : part ≠ bytes)
    (before : List UInt8) :
    ∃ offset needed r, x (.between before part) = .error (.unexpectedEof offset needed) r := by
  obtain ⟨missing, rfl⟩ := hpart
  have hfull := hr before []
  rw [List.append_nil] at hfull
  cases h : x (.between before part) with
  | ok b r =>
    -- The run would have taken all of the bytes, more than there are in the part.
    obtain ⟨used, rest, rfl, -, hall⟩ := hx.split h
    have hagain := hall before (rest ++ missing) rfl
    rw [← List.append_assoc, hfull] at hagain
    have hposition : (before ++ (used ++ rest ++ missing)).length = (before ++ used).length :=
      congrArg Reader.position (EStateM.Result.ok.inj hagain).2
    simp only [List.length_append] at hposition
    have hmissing : missing = [] := List.length_eq_zero_iff.mp (by omega)
    exact absurd (by rw [hmissing, List.append_nil]) hne
  | error e r =>
    by_cases he : ∃ offset needed, e = .unexpectedEof offset needed
    · obtain ⟨offset, needed, rfl⟩ := he
      exact ⟨offset, needed, r, rfl⟩
    · obtain ⟨r', hr'⟩ := hx.error_append h (fun offset needed heq => he ⟨offset, needed, heq⟩)
        missing
      rw [hfull] at hr'
      cases hr'

theorem word (width : Nat) : Takes (ReadM.word width) := (taking width).map ofLittleEndian

theorem u8 : Takes ReadM.u8 := (word 1).map Nat.toUInt8

theorem u32 : Takes ReadM.u32 := (word 4).map Nat.toUInt32

theorem i32 : Takes ReadM.i32 := u32.map UInt32.toInt32

theorem text : Takes ReadM.text := by
  refine (word 4).bind fun size => position fun offset => (taking size).bind fun bytes => ?_
  cases String.fromUTF8? ⟨bytes.toArray⟩ with
  | some s => exact pure s
  | none => exact throw _

theorem index : Takes ReadM.index := u32.map fun i => if i = noIndex then none else some i

theorem times {item : ReadM α} (h : Takes item) (n : Nat) : Takes (ReadM.times item n) := by
  induction n with
  | zero => exact pure []
  | succ n ih => exact h.bind fun x => ih.map (x :: ·)

theorem list {item : ReadM α} (h : Takes item) : Takes (ReadM.list item) :=
  (word 4).bind h.times

end Takes

def Spends {α : Type} (n : Nat) (x : ReadM α) : Prop :=
  ∀ r a r', x r = .ok a r' → r' = ⟨r.data, r.position + n⟩ ∧ (0 < n → r.position + n ≤ r.data.size)

namespace Spends

variable {α β : Type} {n k : Nat} {x : ReadM α}

theorem pure (a : α) : Spends 0 (Pure.pure a : ReadM α) := by
  intro r b r' h
  cases h
  exact ⟨rfl, fun h => absurd h (Nat.lt_irrefl 0)⟩

theorem throw (e : DecodeError) : Spends n (MonadExcept.throw e : ReadM α) := by
  intro r b r' h
  cases h

theorem bind {f : α → ReadM β} (hx : Spends n x) (hf : ∀ a, Spends k (f a)) :
    Spends (n + k) (x >>= f) := by
  intro r b r' h
  obtain ⟨a, t, hx', hf'⟩ := bind_eq_ok.mp h
  obtain ⟨rfl, hn⟩ := hx r a t hx'
  obtain ⟨rfl, hk⟩ := hf a _ b r' hf'
  refine ⟨by rw [Nat.add_assoc], fun hpos => ?_⟩
  by_cases hk0 : k = 0
  · subst hk0
    exact hn hpos
  · have hfit := hk (Nat.pos_of_ne_zero hk0)
    dsimp only at hfit
    omega

theorem map (hx : Spends n x) (f : α → β) : Spends n (x >>= fun a => Pure.pure (f a)) :=
  hx.bind fun a => pure (f a)

theorem position {f : Nat → ReadM α} (h : ∀ i, Spends n (f i)) : Spends n (ReadM.position >>= f) :=
  fun r a r' hr => h r.position r a r' hr

theorem take (n : Nat) : Spends n (ReadM.take n) := by
  intro r a r' h
  unfold ReadM.take at h
  split at h
  · rename_i hfit
    cases h
    exact ⟨rfl, fun _ => hfit⟩
  · cases h

theorem u8 : Spends 1 ReadM.u8 := ((take 1).map _).map _

theorem u16 : Spends 2 ReadM.u16 := ((take 2).map _).map _

theorem u32 : Spends 4 ReadM.u32 := ((take 4).map _).map _

theorem u64 : Spends 8 ReadM.u64 := ((take 8).map _).map _

theorem i32 : Spends 4 ReadM.i32 := u32.map _

theorem i64 : Spends 8 ReadM.i64 := u64.map _

theorem f64 : Spends 8 ReadM.f64 := u64.map _

end Spends

end Bytesmith.Wire

namespace Bytesmith.Code

open Wire

namespace ValueKind

theorem takes : Takes decode := by
  refine .position fun offset => Takes.u8.bind fun tag => ?_
  cases ofTag tag offset with
  | ok kind => exact .pure kind
  | error e => exact .throw e

end ValueKind

namespace TypeTag

theorem takes : Takes decode := by
  refine .position fun offset => Takes.u8.bind fun tag => Takes.u32.bind fun id => ?_
  split
  · exact .pure _
  · exact .pure _
  · exact .pure _
  · exact .throw _

theorem spends_decode : Spends 5 decode := by
  refine .position fun offset => ?_
  change Spends (1 + (4 + 0)) _
  refine Spends.u8.bind fun tag => Spends.u32.bind fun id => ?_
  split
  · exact .pure _
  · exact .pure _
  · exact .pure _
  · exact .throw _

end TypeTag

namespace ModuleKind

theorem takes : Takes decode := by
  refine .position fun offset => Takes.u8.bind fun tag => ?_
  split
  · exact .pure _
  · exact .pure _
  · exact .throw _

end ModuleKind

theorem Handler.takes : Takes Handler.decode :=
  Takes.u32.bind fun _ => Takes.u32.bind fun _ => Takes.u32.bind fun _ =>
    TypeTag.takes.bind fun _ => .pure _

theorem Function.takes : Takes Function.decode :=
  Takes.text.bind fun _ => Takes.index.bind fun _ => Takes.u32.bind fun _ =>
    (Takes.word 4).bind fun _ => ValueKind.takes.list.bind fun _ => (Takes.word 4).bind fun _ =>
      (Takes.word 4).bind fun size => (Takes.taking size).bind fun _ =>
        Handler.takes.list.bind fun _ => .pure _

theorem MethodEntry.takes : Takes MethodEntry.decode :=
  Takes.text.bind fun _ => Takes.u32.bind fun _ => .pure _

theorem PropertyEntry.takes : Takes PropertyEntry.decode :=
  Takes.text.bind fun _ => Takes.index.bind fun _ => Takes.index.bind fun _ => .pure _

theorem ClassEntry.takes : Takes ClassEntry.decode :=
  Takes.text.bind fun _ => Takes.index.bind fun _ => Takes.u8.bind fun _ =>
    Takes.u32.list.bind fun _ => Takes.u32.list.bind fun _ => MethodEntry.takes.list.bind fun _ =>
      Takes.u32.list.bind fun _ => PropertyEntry.takes.list.bind fun _ => .pure _

theorem FieldEntry.takes : Takes FieldEntry.decode :=
  Takes.text.bind fun _ => Takes.u32.bind fun _ => ValueKind.takes.bind fun _ =>
    Takes.u8.bind fun _ => .pure _

theorem EnumTable.takes : Takes EnumTable.decode :=
  have hmember : Takes decodeMember := Takes.text.bind fun _ => Takes.i32.bind fun _ => .pure _
  Takes.text.bind fun _ => hmember.list.bind fun _ => .pure _

theorem Pool.takes : Takes Pool.decode := Takes.text.list.map ofList

end Bytesmith.Code
