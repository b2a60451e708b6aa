import Bytesmith.Proofs.Loading

namespace Bytesmith.Wire

open Outcome

def Yields {α : Type} (x : ReadM α) (P : α → Prop) : Prop := ∀ r a r', x r = .ok a r' → P a

namespace Yields

variable {α β : Type} {P : α → Prop} {Q : β → Prop}

theorem pure {a : α} (h : P a) : Yields (Pure.pure a) P := by
  intro r b r' hb
  cases hb
  exact h

theorem throw (e : DecodeError) : Yields (MonadExcept.throw e) P := fun _ _ _ h => nomatch h

theorem bind {x : ReadM α} {f : α → ReadM β} (hx : Yields x P) (hf : ∀ a, P a → Yields (f a) Q) :
    Yields (x >>= f) Q := by
  intro r b r' h
  obtain ⟨a, t, ha, hb⟩ := bind_eq_ok.mp h
  exact hf a (hx r a t ha) t b r' hb

theorem skip {x : ReadM α} {f : α → ReadM β} (hf : ∀ a, Yields (f a) Q) : Yields (x >>= f) Q := by
  have hx : Yields x fun _ => True := fun _ _ _ _ => trivial
  exact hx.bind fun a _ => hf a

theorem map {x : ReadM α} {f : α → β} (hx : Yields x P) (hf : ∀ a, P a → Q (f a)) :
    Yields (x >>= fun a => Pure.pure (f a)) Q :=
  hx.bind fun a ha => pure (hf a ha)

theorem take (n : Nat) : Yields (ReadM.take n) (·.length = n) := by
  intro r bytes r' h
  unfold ReadM.take at h
  split at h
  · next hfit =>
    cases h
    simp only [Array.toList_extract, List.extract_eq_take_drop, List.length_take, List.length_drop,
      Array.length_toList]
    omega
  · cases h

theorem word (width : Nat) : Yields (ReadM.word width) (· < 256 ^ width) :=
  (take width).map fun bytes h => h ▸ ofLittleEndian_lt bytes

theorem text : Yields ReadM.text fun s => (utf8 s).length < 2 ^ 32 := by
  refine (word 4).bind fun size hsize => skip fun offset => (take size).bind fun bytes hbytes => ?_
  cases h : String.fromUTF8? ⟨bytes.toArray⟩ with
  | none => exact throw _
  | some s =>
    refine pure ?_
    simp only [String.fromUTF8?] at h
    split at h
    · cases h
      have hutf8 : utf8 (String.fromUTF8 ⟨bytes.toArray⟩ ‹_›) = bytes := rfl
      rw [hutf8, hbytes]
      exact hsize
    · cases h

theorem index : Yields ReadM.index (· ≠ some noIndex) := by
  refine skip fun i => pure ?_
  by_cases h : i = noIndex <;> simp [h]

theorem times {item : ReadM α} (h : Yields item P) (n : Nat) :
    Yields (ReadM.times item n) fun xs => xs.length = n ∧ ∀ x ∈ xs, P x := by
  induction n with
  | zero => exact pure ⟨rfl, nofun⟩
  | succ n ih =>
    refine h.bind fun x hx => ih.map fun xs hxs => ⟨congrArg (· + 1) hxs.1, ?_⟩
    exact List.forall_mem_cons.mpr ⟨hx, hxs.2⟩

theorem list {item : ReadM α} (h : Yields item P) :
    Yields (ReadM.list item) fun xs => xs.length < 2 ^ 32 ∧ ∀ x ∈ xs, P x := by
  refine (word 4).bind fun n hn r xs r' hxs => ?_
  obtain ⟨hlength, hall⟩ := h.times n r xs r' hxs
  exact ⟨hlength ▸ hn, hall⟩

theorem counted (item : ReadM α) : Yields (ReadM.list item) (·.length < 2 ^ 32) := by
  have h : Yields item fun _ => True := fun _ _ _ _ => trivial
  exact fun r xs r' hxs => (h.list r xs r' hxs).1

end Yields

end Bytesmith.Wire

namespace Bytesmith.Code

open Wire

theorem Function.yields : Yields decode Encodable :=
  Yields.text.bind fun _ hname => Yields.index.bind fun _ howner => .skip fun _ =>
    (Yields.word 4).bind fun _ hparams => (Yields.counted _).bind fun _ hkinds =>
      (Yields.word 4).bind fun _ hlocals => (Yields.word 4).bind fun _ hsize =>
        (Yields.take _).bind fun _ hcode => (Yields.counted _).bind fun _ hhandlers =>
          .pure ⟨hname, howner, hparams, hkinds, hlocals, lt_of_eq_of_lt hcode hsize, hhandlers⟩

theorem MethodEntry.yields : Yields decode fun m => TextFits m.name :=
  Yields.text.bind fun _ hname => .skip fun _ => .pure hname

theorem PropertyEntry.yields : Yields decode Encodable :=
  Yields.text.bind fun _ hname => Yields.index.bind fun _ hgetter =>
    Yields.index.bind fun _ hsetter => .pure ⟨hname, hgetter, hsetter⟩

theorem ClassEntry.yields : Yields decode Encodable :=
  Yields.text.bind fun _ hname => Yields.index.bind fun _ hparent => .skip fun _ =>
    (Yields.counted _).bind fun _ hinterfaces => (Yields.counted _).bind fun _ hfields =>
      MethodEntry.yields.list.bind fun _ hmethods => (Yields.counted _).bind fun _ hconstructors =>
        PropertyEntry.yields.list.bind fun _ hproperties =>
          .pure ⟨hname, hparent, hinterfaces, hfields, hmethods.1, hmethods.2, hconstructors,
            hproperties.1, hproperties.2⟩

theorem FieldEntry.yields : Yields decode fun f => TextFits f.name :=
  Yields.text.bind fun _ hname => .skip fun _ => .skip fun _ => .skip fun _ => .pure hname

theorem EnumTable.yields : Yields decode Encodable :=
  have hmember : Yields decodeMember fun m => TextFits m.1 :=
    Yields.text.bind fun _ hname => .skip fun _ => .pure hname
  Yields.text.bind fun _ hname => hmember.list.bind fun _ hmembers =>
    .pure ⟨hname, hmembers.1, hmembers.2⟩

namespace Pool

theorem length_foldl_insert (strings : List String) (p : Pool) :
    (strings.foldl insert p).strings.length ≤ p.strings.length + strings.length := by
  induction strings generalizing p with
  | nil => exact Nat.le_refl _
  | cons s strings ih =>
    have hinsert : (p.insert s).strings.length ≤ p.strings.length + 1 := by
      rw [insert_strings]
      split <;> simp
    have htail := ih (p.insert s)
    rw [List.foldl_cons, List.length_cons]
    omega

theorem mem_foldl_insert {strings : List String} {p : Pool} {s : String}
    (h : s ∈ (strings.foldl insert p).strings) : s ∈ p.strings ∨ s ∈ strings := by
  induction strings generalizing p with
  | nil => exact .inl h
  | cons t strings ih =>
    rcases ih h with hp | hs
    · rw [insert_strings] at hp
      split at hp
      · exact .inl hp
      · rcases List.mem_append.mp hp with hp | ht
        · exact .inl hp
        · exact .inr (List.mem_cons.mpr (.inl (List.mem_singleton.mp ht)))
    · exact .inr (.tail t hs)

theorem yields : Yields decode Encodable := by
  refine Yields.text.list.map fun strings h => ⟨⟨strings, rfl⟩, ?_, fun s hs => ?_⟩
  · have hlength := length_foldl_insert strings empty
    have hcount := h.1
    simp only [empty, List.length_nil, Nat.zero_add] at hlength
    exact Nat.lt_of_le_of_lt hlength hcount
  · rcases mem_foldl_insert hs with hs | hs
    · cases hs
    · exact h.2 s hs

end Pool

namespace Module

theorem yields_decodeTables : Yields decodeTables Encodable :=
  Yields.text.bind fun _ hname => .skip fun _ => Yields.index.bind fun _ hentry =>
    Pool.yields.bind fun _ hconstants => Function.yields.list.bind fun _ hfunctions =>
      ClassEntry.yields.list.bind fun _ hclasses => FieldEntry.yields.list.bind fun _ hfields =>
        EnumTable.yields.list.bind fun _ henums =>
          .pure ⟨rfl, rfl, hname, hentry, hconstants, hfunctions.1, hfunctions.2, hclasses.1,
            hclasses.2, hfields.1, hfields.2, henums.1, henums.2, nofun⟩

theorem yields_decodeListing (announced : Bool) : Yields (decodeListing announced) fun listing =>
    (∀ s, listing = some s → TextFits s) ∧ announced = listing.isSome := by
  cases announced with
  | false => exact .pure ⟨nofun, rfl⟩
  | true =>
    refine Yields.text.map fun s hs => ⟨fun s' hs' => ?_, rfl⟩
    cases hs'
    exact hs

theorem yields_decodePayload {h : Header} (hm : h.magic = standardMagic)
    (hv : h.version = currentVersion) :
    Yields (decodePayload h) fun m =>
      m.Encodable ∧ announcesListing m.flags = m.listing.isSome := by
  rw [decodePayload_eq]
  refine yields_decodeTables.bind fun m htables => (yields_decodeListing _).bind fun listing hl =>
    .pure ⟨?_, hl.2⟩
  exact { htables with magic := hm, version := hv, listing := hl.1 }

theorem and_listingFlag (flags : UInt32) :
    flags &&& listingFlag = if announcesListing flags then listingFlag else 0 := by
  have hmod : (flags &&& listingFlag).toNat = flags.toNat % 2 := by
    rw [UInt32.toNat_and]
    exact Nat.and_one_is_mod _
  by_cases h : flags &&& listingFlag = 0
  · simp [announcesListing, h]
  · have hne : (flags &&& listingFlag).toNat ≠ 0 := fun h₀ => h (UInt32.toNat_inj.mp h₀)
    simp only [announcesListing, bne_iff_ne, ne_eq, h, not_false_eq_true, if_true]
    apply UInt32.toNat_inj.mp
    change _ = 1
    omega

theorem and_or_and_not (x mask : UInt32) : x &&& mask ||| x &&& ~~~ mask = x := by
  apply UInt32.toBitVec_inj.mp
  ext i
  simp [← Bool.and_or_distrib_left]

theorem writtenFlags_eq {m : Module} (h : announcesListing m.flags = m.listing.isSome) :
    m.writtenFlags = m.flags := by
  have hlisting : announcesListing m.writtenFlags = announcesListing m.flags :=
    m.writtenFlags_listing.trans h.symm
  rw [← and_or_and_not m.writtenFlags listingFlag, m.writtenFlags_others, and_listingFlag, hlisting,
    ← and_listingFlag, and_or_and_not]

/-- Whatever file a module was loaded from, it can be written and loaded again. The second module
is the first but for its checksum, which is now that of the contents as they are written, and is
itself written in the same bytes. -/
theorem stable_of_decode {data : Array UInt8} {m : Module} (h : decode data = .ok m) :
    ∃ m₂, decode m.encode.toArray = .ok m₂ ∧
      m₂ = { m with checksum := Digest.sha256 m.payload } ∧ m₂.encode = m.encode := by
  have ha := accepts_of_decodeBy h
  obtain ⟨r, hread⟩ := ha.read
  obtain ⟨hencodable, hflags⟩ := yields_decodePayload ha.magic ha.version _ _ _ hread
  have hdecode := m.decode_written hencodable
  rw [writtenFlags_eq hflags] at hdecode
  exact ⟨_, hdecode, rfl, rfl⟩

/-- The specimen with a flag that has no meaning. Its file has bytes behind the contents. -/
def lavish : Module :=
  { specimen with flags := 0x80000007, checksum := Digest.sha256 (specimen.payload ++ [1, 2]) }

def lavishFile : Array UInt8 :=
  ((Header.over 0x80000007 (specimen.payload ++ [1, 2])).bytes ++
    (specimen.payload ++ [1, 2])).toArray

theorem decode_lavishFile : decode lavishFile = .ok lavish := by
  have ha := specimen.accepts_payload specimen_encodable 0x80000007 rfl [1, 2]
  rw [← decodeBy_sha256]
  exact ha.decodeBy

theorem stable_lavish : decode lavishFile = .ok lavish ∧ lavishFile ≠ lavish.encode.toArray ∧
    ∃ m₂, decode lavish.encode.toArray = .ok m₂ ∧
      m₂ = { lavish with checksum := Digest.sha256 lavish.payload } ∧
      m₂.encode = lavish.encode := by
  refine ⟨decode_lavishFile, fun heq => ?_, stable_of_decode decode_lavishFile⟩
  have hfile : lavishFile.toList.drop headerSize = specimen.payload ++ [1, 2] := by
    rw [← Header.bytes_length (Header.sized_over 0x80000007 (specimen.payload ++ [1, 2]))]
    exact List.drop_left
  rw [heq, lavish.drop_header rfl] at hfile
  have hlength : specimen.payload.length = (specimen.payload ++ [1, 2]).length :=
    congrArg List.length hfile
  simp at hlength

end Module

end Bytesmith.Code
