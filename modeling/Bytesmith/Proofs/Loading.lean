import Bytesmith.Proofs.Format
import Bytesmith.Proofs.Takes

namespace Bytesmith.Wire

theorem littleEndian_ofLittleEndian (bytes : List UInt8) :
    littleEndian bytes.length (ofLittleEndian bytes) = bytes := by
  induction bytes with
  | nil => rfl
  | cons b bytes ih =>
    have hb := b.toNat_lt
    have hlow : (b.toNat + 256 * ofLittleEndian bytes).toUInt8 = b := by
      apply UInt8.toNat_inj.mp
      simp only [Nat.toUInt8_eq, UInt8.toNat_ofNat']
      omega
    have hhigh : (b.toNat + 256 * ofLittleEndian bytes) / 256 = ofLittleEndian bytes := by omega
    rw [List.length_cons, ofLittleEndian, littleEndian, hlow, hhigh, ih]

theorem ofLittleEndian_lt (bytes : List UInt8) : ofLittleEndian bytes < 256 ^ bytes.length := by
  induction bytes with
  | nil => decide
  | cons b bytes ih =>
    have hb := b.toNat_lt
    rw [List.length_cons, ofLittleEndian, Nat.pow_succ]
    omega

def wordOf (bytes : List UInt8) : UInt32 := (ofLittleEndian bytes).toUInt32

theorem u32_wordOf {bytes : List UInt8} (h : bytes.length = 4) : u32 (wordOf bytes) = bytes := by
  have hlt := ofLittleEndian_lt bytes
  rw [h] at hlt
  have hword : (wordOf bytes).toNat = ofLittleEndian bytes := by
    simp only [wordOf, Nat.toUInt32_eq, UInt32.toNat_ofNat']
    omega
  rw [u32, hword, ← h]
  exact littleEndian_ofLittleEndian bytes

theorem u32_length (v : UInt32) : (u32 v).length = 4 := littleEndian_length 4 v.toNat

def stretch (start size : Nat) (bytes : List UInt8) : List UInt8 := (bytes.drop start).take size

theorem stretch_length {start size : Nat} {bytes : List UInt8}
    (h : start + size ≤ bytes.length) : (stretch start size bytes).length = size := by
  simp only [stretch, List.length_take, List.length_drop]
  omega

theorem take_append_stretch (start size : Nat) (bytes : List UInt8) :
    bytes.take start ++ stretch start size bytes = bytes.take (start + size) :=
  List.take_add.symm

end Bytesmith.Wire

namespace Bytesmith.Code.Module

open Wire Outcome

namespace Header

def bytes (h : Header) : List UInt8 :=
  h.magic ++ u32 h.version ++ u32 h.flags ++ u32 h.crc ++ h.hash

structure Sized (h : Header) : Prop where
  magic : h.magic.length = 4
  hash : h.hash.length = 32

theorem bytes_length {h : Header} (hs : h.Sized) : h.bytes.length = headerSize := by
  simp only [bytes, List.length_append, u32_length, hs.magic, hs.hash]
  rfl

def ofBytes (bytes : List UInt8) : Header where
  magic := stretch 0 4 bytes
  version := wordOf (stretch 4 4 bytes)
  flags := wordOf (stretch 8 4 bytes)
  crc := wordOf (stretch 12 4 bytes)
  hash := stretch 16 32 bytes

variable {bytes : List UInt8}

theorem sized_ofBytes (h : headerSize ≤ bytes.length) : (ofBytes bytes).Sized := by
  simp only [headerSize] at h
  exact ⟨stretch_length (by omega), stretch_length (by omega)⟩

theorem bytes_ofBytes (h : headerSize ≤ bytes.length) :
    (ofBytes bytes).bytes = bytes.take headerSize := by
  simp only [headerSize] at h
  have hmagic : stretch 0 4 bytes = bytes.take 4 := rfl
  simp only [Header.bytes, ofBytes]
  rw [u32_wordOf (stretch_length (by omega)), u32_wordOf (stretch_length (by omega)),
    u32_wordOf (stretch_length (by omega)), hmagic, take_append_stretch, take_append_stretch,
    take_append_stretch, take_append_stretch]
  rfl

theorem append_contents (h : headerSize ≤ bytes.length) :
    (ofBytes bytes).bytes ++ bytes.drop headerSize = bytes := by
  rw [bytes_ofBytes h, List.take_append_drop]

end Header

def verifyBy (hash : List UInt8 → List UInt8) (h : Header) (contents : List UInt8) :
    Except ModuleError Unit :=
  let crc := Digest.crc32 contents
  if h.crc ≠ crc then .error (.checksumMismatch h.crc crc)
  else
    let found := hash contents
    if h.hash ≠ found then .error (.hashMismatch h.hash found)
    else .ok ()

def decodeBy (hash : List UInt8 → List UInt8) (data : Array UInt8) : Except ModuleError Module :=
  let load : LoadM Module := do
    let header ← decodeHeader
    let r ← get
    match verifyBy hash header (r.data.toList.drop headerSize) with
    | .ok () => reading (decodePayload header)
    | .error e => throw e
  match load (.ofArray data) with
  | .ok m _ => .ok m
  | .error e _ => .error e

theorem decodeBy_sha256 : decodeBy Digest.sha256 = decode := rfl

variable {hash : List UInt8 → List UInt8} {data : Array UInt8} {m : Module}

variable {h : Header}

theorem verifyBy_eq_ok {contents : List UInt8} :
    verifyBy hash h contents = .ok () ↔ h.crc = Digest.crc32 contents ∧ h.hash = hash contents := by
  by_cases hcrc : h.crc = Digest.crc32 contents <;> by_cases hhash : h.hash = hash contents <;>
    simp [verifyBy, hcrc, hhash]

theorem decodeHeader_of_magic (hs : h.Sized) (hm : h.magic ≠ standardMagic)
    (contents : List UInt8) :
    ∃ r, decodeHeader (.between [] (h.bytes ++ contents)) = .error (.invalidMagic h.magic) r := by
  have hmagic : Reads (ReadM.take 4) h.magic h.magic := by
    rw [← hs.magic]
    exact Reads.take h.magic
  unfold decodeHeader
  simp only [Header.bytes, List.append_assoc]
  rw [reading_bind hmagic]
  simp only [ne_eq, hm, not_false_eq_true, if_true]
  exact ⟨_, rfl⟩

theorem decodeHeader_of_version (hm : h.magic = standardMagic) (hv : h.version ≠ currentVersion)
    (contents : List UInt8) :
    ∃ r, decodeHeader (.between [] (h.bytes ++ contents)) =
      .error (.unsupportedVersion h.version) r := by
  have hmagic : Reads (ReadM.take 4) standardMagic standardMagic := Reads.take standardMagic
  unfold decodeHeader
  simp only [Header.bytes, hm, List.append_assoc]
  rw [reading_bind hmagic]
  simp only [ne_eq, not_true_eq_false, if_false]
  rw [reading_bind (Reads.u32 _)]
  simp only [hv, not_false_eq_true, if_true]
  exact ⟨_, rfl⟩

theorem decodeHeader_bytes (hs : h.Sized) (hm : h.magic = standardMagic)
    (hv : h.version = currentVersion) (contents : List UInt8) :
    decodeHeader (.between [] (h.bytes ++ contents)) = .ok h (.between h.bytes contents) := by
  obtain ⟨magic, version, flags, crc, hash⟩ := h
  subst hm hv
  have hheader := decodeHeader_between flags crc hash contents hs.hash
  simpa only [Header.bytes, List.append_assoc] using hheader

theorem decodeBy_bytes (hash : List UInt8 → List UInt8) (hs : h.Sized) (contents : List UInt8) :
    decodeBy hash (h.bytes ++ contents).toArray =
      if h.magic ≠ standardMagic then .error (.invalidMagic h.magic)
      else if h.version ≠ currentVersion then .error (.unsupportedVersion h.version)
      else match verifyBy hash h contents with
        | .error e => .error e
        | .ok () =>
          match decodePayload h (.between h.bytes contents) with
          | .ok m _ => .ok m
          | .error e _ => .error (.decodeError e) := by
  have hstart : Reader.ofArray (h.bytes ++ contents).toArray = .between [] (h.bytes ++ contents) :=
    rfl
  have hdrop : (Reader.between h.bytes contents).data.toList.drop headerSize = contents := by
    rw [← Header.bytes_length hs]
    exact List.drop_left
  simp only [decodeBy, hstart]
  by_cases hm : h.magic = standardMagic
  · by_cases hv : h.version = currentVersion
    · rw [bind_of_ok (decodeHeader_bytes hs hm hv contents), get_bind, hdrop]
      simp only [hm, hv, ne_eq, not_true_eq_false, if_false]
      cases verifyBy hash h contents with
      | error e => rfl
      | ok _ =>
        simp only [reading]
        cases decodePayload h (.between h.bytes contents) <;> rfl
    · obtain ⟨r, hr⟩ := decodeHeader_of_version hm hv contents
      rw [bind_of_error hr]
      simp [hm, hv]
  · obtain ⟨r, hr⟩ := decodeHeader_of_magic hs hm contents
    rw [bind_of_error hr]
    simp [hm]

theorem reading_eq_ok {α : Type} {x : ReadM α} {a : α} {r r' : Reader} :
    reading x r = .ok a r' ↔ x r = .ok a r' := by
  unfold reading
  cases x r <;> simp

def Moves {α : Type} (x : LoadM α) (n : Nat) : Prop :=
  ∀ r a r', x r = .ok a r' → r'.position = r.position + n ∧ r'.data = r.data ∧
    r'.position ≤ r.data.size

theorem moves_reading {α : Type} {x : ReadM α} {n : Nat} (hx : Spends n x) (hn : 0 < n) :
    Moves (reading x) n := by
  intro r a r' h
  obtain ⟨rfl, hfit⟩ := hx r a r' (reading_eq_ok.mp h)
  exact ⟨rfl, rfl, hfit hn⟩

theorem moves_decodeHeader : Moves decodeHeader headerSize := by
  intro r h r' hok
  unfold decodeHeader at hok
  obtain ⟨magic, r₁, hmagic, hok⟩ := bind_eq_ok.mp hok
  obtain ⟨-, hok⟩ := guard_eq_ok.mp hok
  obtain ⟨version, r₂, hversion, hok⟩ := bind_eq_ok.mp hok
  obtain ⟨-, hok⟩ := guard_eq_ok.mp hok
  obtain ⟨flags, r₃, hflags, hok⟩ := bind_eq_ok.mp hok
  obtain ⟨crc, r₄, hcrc, hok⟩ := bind_eq_ok.mp hok
  obtain ⟨hash, r₅, hhash, hok⟩ := bind_eq_ok.mp hok
  cases hok
  have h₁ := moves_reading (.take 4) (by decide) _ _ _ hmagic
  have h₂ := moves_reading .u32 (by decide) _ _ _ hversion
  have h₃ := moves_reading .u32 (by decide) _ _ _ hflags
  have h₄ := moves_reading .u32 (by decide) _ _ _ hcrc
  have h₅ := moves_reading (.take 32) (by decide) _ _ _ hhash
  have hdata : r₄.data = r.data := by rw [h₄.2.1, h₃.2.1, h₂.2.1, h₁.2.1]
  refine ⟨?_, by rw [h₅.2.1, hdata], by rw [← hdata]; exact h₅.2.2⟩
  simp only [headerSize]
  omega

theorem headerSize_le_of_decodeBy (h : decodeBy hash data = .ok m) : headerSize ≤ data.size := by
  unfold decodeBy at h
  cases hheader : decodeHeader (.ofArray data) with
  | ok header r =>
    obtain ⟨hposition, -, hfit⟩ := moves_decodeHeader _ _ _ hheader
    rw [hposition] at hfit
    exact hfit
  | error e r =>
    simp only [bind_of_error hheader] at h
    cases h

def announcesListing (flags : UInt32) : Bool := flags &&& listingFlag != 0

def decodeTables : ReadM Module := do
  let name ← ReadM.text
  let kind ← ModuleKind.decode
  let entryPoint ← ReadM.index
  let constants ← Pool.decode
  let functions ← ReadM.list Function.decode
  let classes ← ReadM.list ClassEntry.decode
  let fields ← ReadM.list FieldEntry.decode
  let enums ← ReadM.list EnumTable.decode
  return { empty name kind with entryPoint, constants, functions, classes, fields, enums }

def decodeListing (announced : Bool) : ReadM (Option String) :=
  if announced then some <$> ReadM.text else pure none

def withHeader (m : Module) (h : Header) (listing : Option String) : Module :=
  { m with
    magic := h.magic
    version := h.version
    flags := h.flags
    listing := listing
    checksum := h.hash }

theorem decodePayload_eq (h : Header) : decodePayload h = (do
    let tables ← decodeTables
    let listing ← decodeListing (announcesListing h.flags)
    return tables.withHeader h listing) := by
  cases hflags : h.flags &&& listingFlag != 0 <;>
    simp only [decodePayload, decodeTables, decodeListing, announcesListing, hflags, withHeader,
      empty, bind_assoc, pure_bind, if_true, Bool.false_eq_true, if_false]

theorem takes_decodeTables : Takes decodeTables :=
  Takes.text.bind fun _ => ModuleKind.takes.bind fun _ => Takes.index.bind fun _ =>
    Pool.takes.bind fun _ => Function.takes.list.bind fun _ => ClassEntry.takes.list.bind fun _ =>
      FieldEntry.takes.list.bind fun _ => EnumTable.takes.list.bind fun _ => .pure _

theorem takes_decodeListing (announced : Bool) : Takes (decodeListing announced) := by
  cases announced with
  | false => exact .pure none
  | true => exact Takes.text.map some

theorem takes_decodePayload (h : Header) : Takes (decodePayload h) := by
  rw [decodePayload_eq]
  exact takes_decodeTables.bind fun _ => (takes_decodeListing _).bind fun _ => .pure _

structure Accepts (hash : List UInt8 → List UInt8) (h : Header) (contents : List UInt8)
    (m : Module) : Prop where
  sized : h.Sized
  magic : h.magic = standardMagic
  version : h.version = currentVersion
  crc : h.crc = Digest.crc32 contents
  hash : h.hash = hash contents
  read : ∃ r, decodePayload h (.between h.bytes contents) = .ok m r

theorem accepts_of_decodeBy (hdecode : decodeBy hash data = .ok m) :
    Accepts hash (Header.ofBytes data.toList) (data.toList.drop headerSize) m := by
  have hsize : headerSize ≤ data.toList.length := headerSize_le_of_decodeBy hdecode
  have hs := Header.sized_ofBytes hsize
  have hdata : data =
      ((Header.ofBytes data.toList).bytes ++ data.toList.drop headerSize).toArray := by
    rw [Header.append_contents hsize]
  rw [hdata, decodeBy_bytes hash hs] at hdecode
  split at hdecode
  · cases hdecode
  next hmagic =>
  split at hdecode
  · cases hdecode
  next hversion =>
  split at hdecode
  · cases hdecode
  next hverify =>
  obtain ⟨hcrc, hhash⟩ := verifyBy_eq_ok.mp hverify
  split at hdecode
  · next hread =>
    cases hdecode
    exact ⟨hs, not_not.mp hmagic, not_not.mp hversion, hcrc, hhash, _, hread⟩
  · cases hdecode

theorem Accepts.decodeBy {contents : List UInt8} (ha : Accepts hash h contents m) :
    Module.decodeBy hash (h.bytes ++ contents).toArray = .ok m := by
  obtain ⟨r, hread⟩ := ha.read
  have hverify : verifyBy hash h contents = .ok () := verifyBy_eq_ok.mpr ⟨ha.crc, ha.hash⟩
  simp only [decodeBy_bytes hash ha.sized, ha.magic, ha.version, ne_eq, not_true_eq_false, if_false,
    hverify, hread]

def Header.over (flags : UInt32) (contents : List UInt8) : Header :=
  ⟨standardMagic, currentVersion, flags, Digest.crc32 contents, Digest.sha256 contents⟩

theorem Header.sized_over (flags : UInt32) (contents : List UInt8) :
    (Header.over flags contents).Sized :=
  ⟨rfl, sha256_length contents⟩

theorem encode_eq (m : Module) (hm : m.magic = standardMagic) (hv : m.version = currentVersion) :
    m.encode = (Header.over m.writtenFlags m.payload).bytes ++ m.payload := by
  simp only [encode, hm, hv]
  rfl

theorem accepts_payload (m : Module) (h : m.Encodable) (flags : UInt32)
    (hflag : (flags &&& listingFlag != 0) = m.listing.isSome) (extra : List UInt8) :
    Accepts Digest.sha256 (Header.over flags (m.payload ++ extra)) (m.payload ++ extra)
      { m with flags := flags, checksum := Digest.sha256 (m.payload ++ extra) } := by
  have hread := m.reads_payload h (Header.over flags (m.payload ++ extra)) hflag
    (Header.over flags (m.payload ++ extra)).bytes extra
  rw [h.magic, h.version]
  exact ⟨Header.sized_over _ _, rfl, rfl, rfl, rfl, _, hread⟩

theorem decode_written (m : Module) (h : m.Encodable) :
    decode m.encode.toArray = .ok { m with
      flags := m.writtenFlags
      checksum := Digest.sha256 m.payload } := by
  have ha := m.accepts_payload h m.writtenFlags m.writtenFlags_listing []
  rw [List.append_nil] at ha
  rw [← decodeBy_sha256, m.encode_eq h.magic h.version]
  exact ha.decodeBy

end Bytesmith.Code.Module
