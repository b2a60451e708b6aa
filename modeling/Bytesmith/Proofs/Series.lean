import Bytesmith.Proofs.Format
import Bytesmith.Proofs.Takes

namespace Bytesmith.Wire

open Outcome

theorem exists_patch {bytes word : List UInt8} {offset : Nat}
    (h : offset + word.length ≤ bytes.length) :
    ∃ front old back, front.length = offset ∧ old.length = word.length ∧
      bytes = front ++ old ++ back ∧ patch bytes offset word = front ++ word ++ back := by
  refine ⟨bytes.take offset, (bytes.drop offset).take word.length,
    bytes.drop (offset + word.length), List.length_take_of_le (by omega),
    List.length_take_of_le (by rw [List.length_drop]; omega), ?_, rfl⟩
  rw [List.append_assoc, ← List.drop_drop, List.take_append_drop, List.take_append_drop]

/-- The computation takes `n` bytes at once. Where fewer are left, it fails and leaves the reader
as it was. -/
def AtOnce {α : Type} (n : Nat) (x : ReadM α) : Prop :=
  ∀ r, (r.position + n ≤ r.data.size ∧ ∃ a, x r = .ok a ⟨r.data, r.position + n⟩) ∨
    (r.data.size < r.position + n ∧ ∃ e, x r = .error e r)

def Inside {α : Type} (x : ReadM α) : Prop := ∀ r a r', x r = .ok a r' → r.position ≤ r.data.size

section

variable {α β : Type} {x : ReadM α} {n : Nat}

theorem AtOnce.take (n : Nat) : AtOnce n (ReadM.take n) := by
  intro r
  by_cases h : r.position + n ≤ r.data.size
  · exact .inl ⟨h, _, if_pos h⟩
  · exact .inr ⟨by omega, _, if_neg h⟩

theorem AtOnce.map (hx : AtOnce n x) (f : α → β) : AtOnce n (x >>= fun a => Pure.pure (f a)) := by
  intro r
  obtain ⟨hfit, a, ha⟩ | ⟨hfew, e, he⟩ := hx r
  · exact .inl ⟨hfit, f a, bind_of_ok ha⟩
  · exact .inr ⟨hfew, e, bind_of_error he⟩

theorem AtOnce.word (width : Nat) : AtOnce width (ReadM.word width) := (take width).map _

theorem AtOnce.inside (hx : AtOnce n x) : Inside x := by
  intro r a r' h
  obtain ⟨hfit, -⟩ | ⟨-, e, he⟩ := hx r
  · omega
  · rw [he] at h
    cases h

theorem Inside.bind (hx : Inside x) {f : α → ReadM β} : Inside (x >>= f) := by
  intro r b r' h
  obtain ⟨a, t, ha, -⟩ := bind_eq_ok.mp h
  exact hx r a t ha

theorem Takes.part (hx : Takes x) (hin : Inside x) {r r' : Reader} {a : α} (h : x r = .ok a r') :
    ∃ before used rest, r = .between before (used ++ rest) ∧ r' = .between (before ++ used) rest ∧
      ∀ before' rest', before'.length = before.length →
        x (.between before' (used ++ rest')) = .ok a (.between (before' ++ used) rest') := by
  have hr : r = .between (r.data.toList.take r.position) (r.data.toList.drop r.position) := by
    have hlength : (r.data.toList.take r.position).length = r.position :=
      List.length_take_of_le (hin r a r' h)
    rw [Reader.between, List.take_append_drop, hlength, Array.toArray_toList]
  rw [hr] at h
  obtain ⟨used, rest, hbytes, hr', hall⟩ := hx.split h
  exact ⟨_, used, rest, hbytes ▸ hr, hr', hall⟩

theorem Takes.replaced (hx : Takes x) (hin : Inside x) {front old new back : List UInt8}
    (hlength : new.length = old.length) {start stop : Nat}
    (hout : stop ≤ front.length ∨ (front ++ old).length ≤ start) {a : α}
    (h : x ⟨(front ++ old ++ back).toArray, start⟩ = .ok a ⟨(front ++ old ++ back).toArray, stop⟩) :
    x ⟨(front ++ new ++ back).toArray, start⟩ = .ok a ⟨(front ++ new ++ back).toArray, stop⟩ := by
  obtain ⟨before, used, rest, hr, hr', hall⟩ := hx.part hin h
  obtain ⟨hdata, rfl⟩ := Reader.mk.inj hr
  obtain ⟨-, rfl⟩ := Reader.mk.inj hr'
  have hbytes : front ++ old ++ back = before ++ used ++ rest := by
    rw [List.append_assoc before]
    exact List.toArray_inj hdata
  obtain hout | hout := hout
  · -- what was taken lies in front of the replaced bytes
    obtain ⟨mid, rfl⟩ : before ++ used <+: front :=
      List.prefix_of_prefix_length_le ⟨rest, hbytes.symm⟩ ⟨old ++ back, by rw [List.append_assoc]⟩
        hout
    have hrun := hall before (mid ++ new ++ back) rfl
    simp only [Reader.between, List.append_assoc] at hrun ⊢
    exact hrun
  · -- what was taken lies behind them
    obtain ⟨mid, rfl⟩ : front ++ old <+: before :=
      List.prefix_of_prefix_length_le ⟨back, rfl⟩
        ⟨used ++ rest, by rw [hbytes, List.append_assoc]⟩ hout
    have hback : back = mid ++ (used ++ rest) := by
      simpa only [List.append_assoc, List.append_cancel_left_eq] using hbytes
    have hrun := hall (front ++ new ++ mid) rest (by simp only [List.length_append, hlength])
    simp only [Reader.between, List.append_assoc, List.length_append, hlength, hback] at hrun ⊢
    exact hrun

theorem Takes.patched (hx : Takes x) (hin : Inside x) {bytes word : List UInt8}
    {offset start stop : Nat} (hfit : offset + word.length ≤ bytes.length)
    (hout : stop ≤ offset ∨ offset + word.length ≤ start) (a : α) :
    x ⟨(patch bytes offset word).toArray, start⟩ =
        .ok a ⟨(patch bytes offset word).toArray, stop⟩ ↔
      x ⟨bytes.toArray, start⟩ = .ok a ⟨bytes.toArray, stop⟩ := by
  obtain ⟨front, old, back, rfl, hlength, hbytes, hpatch⟩ := exists_patch hfit
  rw [hpatch, hbytes]
  rw [← List.length_append] at hout
  refine ⟨hx.replaced hin hlength hout, hx.replaced hin hlength.symm ?_⟩
  rwa [List.length_append, hlength, ← List.length_append]

end

end Bytesmith.Wire

namespace Bytesmith.Code

open Wire Outcome

inductive Datum
  | u8 (v : UInt8)
  | u16 (v : UInt16)
  | u32 (v : UInt32)
  | i32 (v : Int32)
  | i64 (v : Int64)
  | f64 (v : Double)
  | text (s : String)
  | tag (t : TypeTag)
  | raw (bytes : List UInt8)
deriving DecidableEq

inductive Form
  | u8
  | u16
  | u32
  | i32
  | i64
  | f64
  | text
  | tag
  | raw (size : Nat)
deriving DecidableEq

def Datum.form : Datum → Form
  | u8 _ => .u8
  | u16 _ => .u16
  | u32 _ => .u32
  | i32 _ => .i32
  | i64 _ => .i64
  | f64 _ => .f64
  | text _ => .text
  | tag _ => .tag
  | raw bytes => .raw bytes.length

def Datum.encode : Datum → List UInt8
  | u8 v => Wire.u8 v
  | u16 v => Wire.u16 v
  | u32 v => Wire.u32 v
  | i32 v => Wire.i32 v
  | i64 v => Wire.i64 v
  | f64 v => Wire.f64 v
  | text s => Wire.text s
  | tag t => t.encode
  | raw bytes => bytes

namespace Form

def decode : Form → ReadM Datum
  | u8 => return .u8 (← ReadM.u8)
  | u16 => return .u16 (← ReadM.u16)
  | u32 => return .u32 (← ReadM.u32)
  | i32 => return .i32 (← ReadM.i32)
  | i64 => return .i64 (← ReadM.i64)
  | f64 => return .f64 (← ReadM.f64)
  | text => return .text (← ReadM.text)
  | tag => return .tag (← TypeTag.decode)
  | raw size => return .raw (← ReadM.take size)

def Fixed (f : Form) : Prop := ∃ n, ∀ d : Datum, d.form = f → d.encode.length = n

theorem takes (f : Form) : Takes f.decode := by
  cases f with
  | u8 => exact Takes.u8.map _
  | u16 => exact ((Takes.word 2).map _).map _
  | u32 => exact Takes.u32.map _
  | i32 => exact Takes.i32.map _
  | i64 | f64 => exact (((Takes.word 8).map _).map _).map _
  | text => exact Takes.text.map _
  | tag => exact TypeTag.takes.map _
  | raw size => exact (Takes.taking size).map _

theorem inside (f : Form) : Inside f.decode := by
  cases f with
  | u8 | u16 | u32 | text => exact (AtOnce.word _).inside.bind.bind
  | i32 | i64 | f64 => exact (AtOnce.word _).inside.bind.bind.bind
  | tag => exact fun r => (AtOnce.word 1).inside.bind.bind.bind r
  | raw size => exact (AtOnce.take size).inside.bind

theorem atOnce {f : Form} (hfixed : f.Fixed) (htag : f ≠ .tag) : ∃ n, AtOnce n f.decode := by
  cases f with
  | u8 | u16 | u32 => exact ⟨_, ((AtOnce.word _).map _).map _⟩
  | i32 | i64 | f64 => exact ⟨_, (((AtOnce.word _).map _).map _).map _⟩
  | text =>
    obtain ⟨n, hn⟩ := hfixed
    have hempty : (Wire.text "").length = n := hn (.text "") rfl
    have hletter : (Wire.text "a").length = n := hn (.text "a") rfl
    exact absurd (hempty.trans hletter.symm) (by decide)
  | tag => exact absurd rfl htag
  | raw size => exact ⟨size, (AtOnce.take size).map _⟩

end Form

/-- A tag is read in two parts: what failed was the byte, the number or, behind both, the choice. -/
theorem TypeTag.position_of_error {r r' : Reader} {e : DecodeError} (h : decode r = .error e r') :
    r' = r.seek (r.position + if r.remaining = 0 then 0 else if r.remaining < 5 then 1 else 5) := by
  have hu8 : AtOnce 1 ReadM.u8 := (AtOnce.word 1).map _
  have hu32 : AtOnce 4 ReadM.u32 := (AtOnce.word 4).map _
  unfold Reader.remaining
  change (ReadM.u8 >>= _) r = _ at h
  obtain ⟨hbyte, tag, hok⟩ | ⟨hfew, _, hfail⟩ := hu8 r
  · rw [bind_of_ok hok] at h
    obtain ⟨hnumber, id, hok⟩ | ⟨hfew, _, hfail⟩ := hu32 ⟨r.data, r.position + 1⟩
    · rw [bind_of_ok hok] at h
      dsimp only at hnumber
      rw [if_neg (by omega), if_neg (by omega)]
      split at h <;> cases h
      rfl
    · rw [bind_of_error hfail] at h
      cases h
      dsimp only at hfew
      rw [if_neg (by omega), if_pos (by omega)]
      rfl
  · rw [bind_of_error hfail] at h
    cases h
    rw [if_pos (by omega)]
    rfl

namespace Datum

theorem reads (d : Datum) (h : ∀ s, d = .text s → TextFits s) : Reads d.form.decode d.encode d := by
  cases d with
  | u8 v => exact (Reads.u8 v).map u8
  | u16 v => exact (Reads.u16 v).map u16
  | u32 v => exact (Reads.u32 v).map u32
  | i32 v => exact (Reads.i32 v).map i32
  | i64 v => exact (Reads.i64 v).map i64
  | f64 v => exact (Reads.f64 v).map f64
  | text s => exact (Reads.text s (h s rfl)).map text
  | tag t => exact t.reads.map tag
  | raw bytes => exact (Reads.take bytes).map raw

theorem reads_mapM (data : List Datum) (h : ∀ s, .text s ∈ data → TextFits s) :
    Reads ((data.map form).mapM Form.decode) (data.flatMap encode) data := by
  induction data with
  | nil => exact Reads.pure []
  | cons d data ih =>
    have hd := d.reads fun s hs => h s (hs ▸ (.head _))
    have hdata := ih fun s hs => h s (.tail d hs)
    rw [List.map_cons, List.mapM_cons, List.flatMap_cons]
    exact hd.bind (hdata.map (d :: ·))

/-- Any sequence of values is read back from where it was written, bit for bit. A read of fixed size
that fails leaves the reader as it was, other than that of a tag, which keeps what it has taken. No
read that succeeds leaves the data, and patching four bytes changes no value that is read elsewhere. -/
theorem series_laws :
    (∀ (buffer following : List UInt8) (data : List Datum), (∀ s, .text s ∈ data → TextFits s) →
      let written := data.flatMap encode
      let bytes := (buffer ++ written ++ following).toArray
      (data.map form).mapM Form.decode ⟨bytes, buffer.length⟩ =
        .ok data ⟨bytes, buffer.length + written.length⟩) ∧
    (∀ (f : Form) (r r' : Reader) (e : DecodeError), f.Fixed → f ≠ .tag →
      f.decode r = .error e r' → r' = r) ∧
    (∀ (r r' : Reader) (e : DecodeError), Form.tag.decode r = .error e r' → r' = r.seek
      (r.position + if r.remaining = 0 then 0 else if r.remaining < 5 then 1 else 5)) ∧
    (∀ (f : Form) (r r' : Reader) (d : Datum), f.decode r = .ok d r' →
      r'.data = r.data ∧ r.position ≤ r'.position ∧ r'.position ≤ r.data.size) ∧
    (∀ (bytes word : List UInt8) (offset : Nat), word.length = 4 → offset + 4 ≤ bytes.length →
      let patched := patch bytes offset word
      (Form.raw 4).decode ⟨patched.toArray, offset⟩ =
        .ok (.raw word) ⟨patched.toArray, offset + 4⟩ ∧
      ∀ (f : Form) (d : Datum) (start stop : Nat), stop ≤ offset ∨ offset + 4 ≤ start →
        (f.decode ⟨patched.toArray, start⟩ = .ok d ⟨patched.toArray, stop⟩ ↔
          f.decode ⟨bytes.toArray, start⟩ = .ok d ⟨bytes.toArray, stop⟩)) := by
  refine ⟨fun buffer following data hfits => ?_, fun f r r' e hfixed htag h => ?_,
    fun r r' e h => ?_, fun f r r' d h => ?_, fun bytes word offset hword hfit => ?_⟩
  · have h := reads_mapM data hfits buffer following
    simp only [Reader.between, List.append_assoc, List.length_append] at h ⊢
    exact h
  · obtain ⟨n, hn⟩ := Form.atOnce hfixed htag
    obtain ⟨-, d, hok⟩ | ⟨-, e', hfail⟩ := hn r
    · rw [hok] at h
      cases h
    · rw [hfail] at h
      cases h
      rfl
  · obtain h | ⟨t, s, -, h⟩ := bind_eq_error.mp h
    · exact TypeTag.position_of_error h
    · cases h
  · obtain ⟨before, used, rest, rfl, rfl, -⟩ := f.takes.part f.inside h
    simp [Reader.between]
  · rw [← hword] at hfit ⊢
    refine ⟨?_, fun f d start stop hout => f.takes.patched f.inside hfit hout d⟩
    obtain ⟨front, old, back, rfl, -, -, hpatch⟩ := exists_patch hfit
    have h := (Reads.take word).map raw front back
    rw [hpatch]
    simp only [Reader.between, List.append_assoc, List.length_append] at h ⊢
    exact h

/-- The least integers, a not-a-number with a payload and a letter of two bytes among the others. -/
def assorted : List Datum :=
  [.u8 255, .i32 (-2147483648), .text "Ä", .f64 ⟨0xFFF4000000000001⟩, .tag (.class 7), .u16 0xBEEF,
    .i64 (-9223372036854775808), .u32 4294967295, .raw [0, 255]]

theorem series_laws_assorted :
    let bytes := ([9, 9, 9, 9] ++ assorted.flatMap encode ++ [4]).toArray
    let patched := (patch [9, 9, 9, 9, 255] 0 (Wire.u32 300)).toArray
    (assorted.map form).mapM Form.decode ⟨bytes, 4⟩ = .ok assorted ⟨bytes, 44⟩ ∧
    (∃ e r', Form.i64.decode ⟨#[9, 9, 9, 9, 255], 4⟩ = .error e r' ∧ r'.position = 4) ∧
    Form.u8.decode ⟨patched, 4⟩ = .ok (.u8 255) ⟨patched, 5⟩ := by
  obtain ⟨hread, hfail, -, -, hpatch⟩ := series_laws
  have hfits : ∀ s, .text s ∈ assorted → TextFits s := by
    intro s hs
    have h : s = "Ä" := by simpa [assorted] using hs
    rw [h]
    decide
  have hfixed : Form.i64.Fixed := ⟨8, fun d hd => by cases d <;> cases hd; rfl⟩
  have hshort : Form.i64.decode ⟨#[9, 9, 9, 9, 255], 4⟩ = .error (.unexpectedEof 4 8) _ := rfl
  refine ⟨hread [9, 9, 9, 9] [4] assorted hfits, ⟨_, _, hshort, ?_⟩, ?_⟩
  · exact congrArg Reader.position (hfail _ _ _ _ hfixed (by decide) hshort)
  · exact ((hpatch [9, 9, 9, 9, 255] _ 0 rfl (by decide)).2 .u8 _ 4 5 (.inr (by decide))).mpr rfl

/-- The bytes of a tag are five, but where they are cut short the first is lost to the next read. -/
theorem tag_cut_short : ¬ ∀ (f : Form) (r r' : Reader) (e : DecodeError), f.Fixed →
    f.decode r = .error e r' → r'.position = r.position := by
  intro h
  have hfixed : Form.tag.Fixed := by
    refine ⟨5, fun d hd => ?_⟩
    cases d with
    | tag t => cases t <;> rfl
    | _ => cases hd
  have hcut : Form.tag.decode ⟨#[3, 5], 0⟩ = .error (.unexpectedEof 1 4) ⟨#[3, 5], 1⟩ := rfl
  exact absurd (h _ _ _ _ hfixed hcut) (by decide)

end Datum

end Bytesmith.Code
