import ExecutionFinality.Reference.CanonicalIdentity

/-! Dictionaries and dataclass instances whose keys are literals of the source. -/
namespace ExecutionFinality
open Utf8 (Bytes)
open KeyedEntries

namespace PyVal
variable {nfc : Nfc} {portable : Bool}

def fields (kind : MapKind) (fs : List (String × PyVal)) : PyVal :=
  .mapping kind (fs.map fun f => (.str (py f.1),f.2))

/-- Distinct ASCII keys. -/
def LiteralKeys (ks : List String) : Prop := ks.Nodup ∧ ∀ k ∈ ks, ∀ c ∈ k.toList, c.toNat < 128

instance (ks : List String) : Decidable (LiteralKeys ks) :=
  have (k : String) : Decidable (∀ c ∈ k.toList, c.toNat < 128) := List.decidableBAll ..
  inferInstanceAs (Decidable (_ ∧ _))

/-- `list(xs)` of strings -/
def strs (xs : List PyStr) : PyVal := .list (xs.map .str)

/-- Strings, integers and sequences of strings -/
def Plain : PyVal → Prop
  | .text _ _ | .int _ => True
  | .seq _ xs => ∀ x ∈ xs, ∃ k s, x = .text k s
  | _ => False

private def NormalField (nfc : Nfc) (portable : Bool) (f : String × PyVal) (kv : List Char × Json) : Prop :=
  kv.1 = nfc.run f.1.toList ∧ normalize nfc portable f.2 = .ok kv.2

private theorem normalEntry_py {f : String × PyVal} {kv : List Char × Json} :
    NormalEntry nfc portable (.str (py f.1),f.2) kv ↔ NormalField nfc portable f kv := by
  apply and_congr_left
  intro _
  constructor
  · rintro ⟨s,cs,hs,hcs,he⟩
    cases hs
    cases (PyStr.scalars_ofChars _).symm.trans hcs
    exact he.symm
  · exact fun h => ⟨_,_,rfl,PyStr.scalars_ofChars _,h.symm⟩

private theorem normalize_fields {kind : MapKind} {fs : List (String × PyVal)} {j : Json} :
    normalize nfc portable (fields kind fs) = .ok j ↔ ∃ kvs,
      List.Forall₂ (NormalField nfc portable) fs kvs ∧ (keys kvs).Nodup ∧ j = .obj (sortOn id kvs) := by
  rw [← normal_iff,fields]
  constructor
  · intro h
    cases h with
    | mapping hf hn hj => exact ⟨_,(List.forall₂_map_left_iff.mp hf).imp fun _ _ => normalEntry_py.mp,hn,hj⟩
  · rintro ⟨kvs,hf,hn,hj⟩
    exact .mapping (List.forall₂_map_left_iff.mpr (hf.imp fun _ _ => normalEntry_py.mpr)) hn hj

/-- Records with one normal form have equally many fields. -/
theorem length_of_normalize_fields {k l : MapKind} {fs gs : List (String × PyVal)} {j : Json}
    (hf : normalize nfc portable (fields k fs) = .ok j) (hg : normalize nfc portable (fields l gs) = .ok j) :
    fs.length = gs.length := by
  obtain ⟨kvs,hfs,_,rfl⟩ := normalize_fields.mp hf
  obtain ⟨lws,hgs,_,he⟩ := normalize_fields.mp hg
  have hl := congrArg List.length (Json.obj.inj he)
  rw [(sortOn_perm _ _).length_eq,(sortOn_perm _ _).length_eq] at hl
  rw [hfs.length_eq,hgs.length_eq,hl]

/-- Records with one normal form have one normal form in every field they share. -/
theorem value_of_normalize_fields {k l : MapKind} {fs gs : List (String × PyVal)} {j : Json}
    (hf : normalize nfc portable (fields k fs) = .ok j) (hg : normalize nfc portable (fields l gs) = .ok j)
    {key : String} {v w : PyVal} (hv : (key,v) ∈ fs) (hw : (key,w) ∈ gs) :
    ∃ i, normalize nfc portable v = .ok i ∧ normalize nfc portable w = .ok i := by
  obtain ⟨kvs,hfs,hn,rfl⟩ := normalize_fields.mp hf
  obtain ⟨lws,hgs,_,he⟩ := normalize_fields.mp hg
  have hp := (sortOn_eq_iff Function.injective_id hn).mp (Json.obj.inj he)
  obtain ⟨⟨k',i⟩,hi,hk,hvi⟩ := forall₂_of_mem_right hfs.flip hv
  obtain ⟨⟨l',i'⟩,hi',hl,hwi⟩ := forall₂_of_mem_right hgs.flip hw
  dsimp only at hk hl
  subst hk hl
  exact ⟨i,hvi,value_unique hn hi (hp.mem_iff.mpr hi') ▸ hwi⟩

/-- Records with one normal form have the same keys up to NFC. -/
theorem key_of_normalize_fields {k l : MapKind} {fs gs : List (String × PyVal)} {j : Json}
    (hf : normalize nfc portable (fields k fs) = .ok j) (hg : normalize nfc portable (fields l gs) = .ok j)
    {key : String} (h : key ∈ keys fs) : ∃ key' ∈ keys gs, nfc.run key.toList = nfc.run key'.toList := by
  obtain ⟨kvs,hfs,hn,rfl⟩ := normalize_fields.mp hf
  obtain ⟨lws,hgs,_,he⟩ := normalize_fields.mp hg
  have hp := (sortOn_eq_iff Function.injective_id hn).mp (Json.obj.inj he)
  obtain ⟨f,hmem,rfl⟩ := List.mem_map.mp h
  obtain ⟨kv,hkv,hk,_⟩ := forall₂_of_mem_right hfs.flip hmem
  obtain ⟨g,hg,hl,_⟩ := forall₂_of_mem_right hgs (hp.mem_iff.mp hkv)
  exact ⟨g.1,List.mem_map_of_mem hg,hk.symm.trans hl⟩

/-- The normal form of a record depends on the normal forms of its fields only. -/
theorem normalize_fields_congr {k l : MapKind} {fs gs : List (String × PyVal)}
    (h : List.Forall₂ (fun f g => f.1 = g.1 ∧ normalize nfc portable f.2 = normalize nfc portable g.2) fs gs) :
    normalize nfc portable (fields k fs) = normalize nfc portable (fields l gs) := by
  have entries (out : List (List Char × Json)) :
      normalizeEntries nfc portable (fs.map fun f => (.str (py f.1),f.2)) out =
        normalizeEntries nfc portable (gs.map fun g => (.str (py g.1),g.2)) out := by
    induction h generalizing out with
    | nil => rfl
    | cons hfg _ ih => simp only [List.map_cons,normalizeEntries,hfg.1,hfg.2,ih]
  simp only [fields,normalize,entries]

private theorem nodup_run (hnfc : nfc.FixesAscii) {ks : List String} (h : LiteralKeys ks) :
    (ks.map fun k => nfc.run k.toList).Nodup := by
  apply (List.nodup_map_iff_inj_on h.1).mpr
  intro k hk l hl he
  rw [hnfc _ (h.2 k hk),hnfc _ (h.2 l hl)] at he
  exact String.toList_inj.mp he

end PyVal

namespace Platform
variable {pf : Platform}

/-- The value has canonical bytes. -/
def Accepts (pf : Platform) (v : PyVal) : Prop := ∃ b, pf.canonicalBytes v = .ok b

/-- The two values have one normal form. -/
def SameNormal (pf : Platform) (v w : PyVal) : Prop :=
  ∃ j, v.normalize pf.nfc false = .ok j ∧ w.normalize pf.nfc false = .ok j

theorem accepts_iff {v : PyVal} :
    pf.Accepts v ↔ ∃ j, v.normalize pf.nfc false = .ok j ∧ ∀ n ∈ j.ints, pf.Prints n := by
  simp only [Accepts,canonicalBytes_eq_ok]
  constructor
  · rintro ⟨_,j,hj,hn,_⟩
    exact ⟨j,hj,hn⟩
  · rintro ⟨j,hj,hn⟩
    exact ⟨_,j,hj,hn,rfl⟩

@[simp] theorem accepts_text {k : TextKind} {s : PyStr} : pf.Accepts (.text k s) ↔ ∃ cs, s.scalars = some cs := by
  rw [accepts_iff]
  constructor
  · rintro ⟨j,hj,_⟩
    cases PyVal.normal_iff.mpr hj with
    | text h => exact ⟨_,h⟩
  · rintro ⟨cs,h⟩
    exact ⟨_,PyVal.normal_iff.mp (.text h),by simp [Json.ints]⟩

@[simp] theorem accepts_int {n : Int} : pf.Accepts (.int n) ↔ pf.Prints n := by
  rw [accepts_iff]
  constructor
  · rintro ⟨j,hj,hn⟩
    cases PyVal.normal_iff.mpr hj
    exact hn n (by simp [Json.ints])
  · intro h
    exact ⟨_,PyVal.normal_iff.mp (.int (by rintro ⟨⟩)),by simpa [Json.ints] using h⟩

@[simp] theorem accepts_seq {k : SeqKind} {xs : List PyVal} :
    pf.Accepts (.seq k xs) ↔ ∀ x ∈ xs, pf.Accepts x := by
  simp only [accepts_iff]
  constructor
  · rintro ⟨j,hj,hn⟩ x hx
    cases PyVal.normal_iff.mpr hj with
    | seq hf =>
      obtain ⟨i,hi,hxi⟩ := forall₂_of_mem_right hf.flip hx
      exact ⟨i,hxi,fun n hm => hn n (Json.mem_intsElements.mpr ⟨i,hi,hm⟩)⟩
  · intro h
    obtain ⟨js,hjs⟩ := exists_forall₂ h
    refine ⟨.arr js,PyVal.normal_iff.mp (.seq (hjs.imp fun _ _ h => h.1)),fun n hm => ?_⟩
    obtain ⟨j,hj,hm⟩ := Json.mem_intsElements.mp hm
    obtain ⟨x,_,hx⟩ := forall₂_of_mem_right hjs hj
    exact hx.2 n hm

theorem accepts_strs {xs : List PyStr} : pf.Accepts (.strs xs) ↔ ∀ x ∈ xs, ∃ cs, x.scalars = some cs := by
  simp [PyVal.strs]

theorem Accepts.field {kind : MapKind} {fs : List (String × PyVal)} (h : pf.Accepts (.fields kind fs))
    {f : String × PyVal} (hf : f ∈ fs) : pf.Accepts f.2 := by
  obtain ⟨j,hj,hn⟩ := accepts_iff.mp h
  obtain ⟨kvs,hfs,_,rfl⟩ := PyVal.normalize_fields.mp hj
  obtain ⟨kv,hkv,_,hi⟩ := forall₂_of_mem_right hfs.flip hf
  exact accepts_iff.mpr ⟨kv.2,hi,fun n hm => hn n (Json.mem_intsMembers.mpr ⟨kv,(mem_sortOn id).mpr hkv,hm⟩)⟩

/-- A record with distinct ASCII keys is accepted as soon as its values are. -/
theorem accepts_fields (hnfc : pf.nfc.FixesAscii) {kind : MapKind} {fs : List (String × PyVal)}
    (hk : PyVal.LiteralKeys (keys fs)) : pf.Accepts (.fields kind fs) ↔ ∀ f ∈ fs, pf.Accepts f.2 := by
  refine ⟨fun h f hf => h.field hf,fun h => ?_⟩
  simp only [accepts_iff] at h
  have entry : ∀ f ∈ fs, ∃ kv, PyVal.NormalField pf.nfc false f kv ∧ ∀ n ∈ kv.2.ints, pf.Prints n :=
    fun f hf => by
      obtain ⟨j,hj,hm⟩ := h f hf
      exact ⟨(pf.nfc.run f.1.toList,j),⟨rfl,hj⟩,hm⟩
  obtain ⟨kvs,hkvs⟩ := exists_forall₂ entry
  have hkeys : keys kvs = (keys fs).map fun k => pf.nfc.run k.toList := by
    clear hk h entry
    induction hkvs with
    | nil => rfl
    | cons hf _ ih => simp [keys,hf.1.1,ih]
  have hn' : (keys kvs).Nodup := hkeys ▸ PyVal.nodup_run hnfc hk
  refine accepts_iff.mpr ⟨.obj (sortOn id kvs),PyVal.normalize_fields.mpr ⟨kvs,hkvs.imp fun _ _ h => h.1,hn',rfl⟩,
    fun n hm => ?_⟩
  obtain ⟨kv,hkv,hm⟩ := Json.mem_intsMembers.mp hm
  obtain ⟨f,_,hf⟩ := forall₂_of_mem_right hkvs ((mem_sortOn id).mp hkv)
  exact hf.2 n hm

theorem sameNormal_text {k l : TextKind} {s t : PyStr} :
    pf.SameNormal (.text k s) (.text l t) ↔ SameText pf.nfc s t := by
  constructor
  · rintro ⟨j,hs,ht⟩
    cases PyVal.normal_iff.mpr hs with
    | text ha =>
      generalize he : Json.str _ = i at ht
      cases PyVal.normal_iff.mpr ht with
      | text hb => exact ⟨_,_,ha,hb,Json.str.inj he⟩
  · rintro ⟨a,b,ha,hb,he⟩
    exact ⟨_,PyVal.normal_iff.mp (.text ha),he ▸ PyVal.normal_iff.mp (.text hb)⟩

theorem sameNormal_int {m n : Int} (h : pf.SameNormal (.int m) (.int n)) : m = n := by
  obtain ⟨j,hm,hn⟩ := h
  cases PyVal.normal_iff.mpr hm
  cases PyVal.normal_iff.mpr hn
  rfl

theorem SameNormal.value {k l : MapKind} {fs gs : List (String × PyVal)}
    (h : pf.SameNormal (.fields k fs) (.fields l gs)) (key : String) {v w : PyVal}
    (hv : (key,v) ∈ fs) (hw : (key,w) ∈ gs) : pf.SameNormal v w := by
  obtain ⟨j,hf,hg⟩ := h
  exact PyVal.value_of_normalize_fields hf hg hv hw

theorem SameNormal.text {k l : MapKind} {fs gs : List (String × PyVal)}
    (h : pf.SameNormal (.fields k fs) (.fields l gs)) (key : String) {s t : PyStr}
    (hs : (key,.str s) ∈ fs) (ht : (key,.str t) ∈ gs) : SameText pf.nfc s t :=
  sameNormal_text.mp (h.value key hs ht)

theorem SameNormal.int {k l : MapKind} {fs gs : List (String × PyVal)}
    (h : pf.SameNormal (.fields k fs) (.fields l gs)) (key : String) {m n : Int}
    (hm : (key,.int m) ∈ fs) (hn : (key,.int n) ∈ gs) : m = n :=
  sameNormal_int (h.value key hm hn)

theorem SameNormal.length {k l : MapKind} {fs gs : List (String × PyVal)}
    (h : pf.SameNormal (.fields k fs) (.fields l gs)) : fs.length = gs.length := by
  obtain ⟨j,hf,hg⟩ := h
  exact PyVal.length_of_normalize_fields hf hg

/-- Records of literal keys with one normal form have the same keys. -/
theorem SameNormal.key (hnfc : pf.nfc.FixesAscii) {k l : MapKind} {fs gs : List (String × PyVal)}
    (h : pf.SameNormal (.fields k fs) (.fields l gs)) (hf : PyVal.LiteralKeys (keys fs))
    (hg : PyVal.LiteralKeys (keys gs)) {key : String} (hk : key ∈ keys fs) : key ∈ keys gs := by
  obtain ⟨j,hj,hj'⟩ := h
  obtain ⟨key',hk',he⟩ := PyVal.key_of_normalize_fields hj hj' hk
  rw [hnfc _ (hf.2 _ hk),hnfc _ (hg.2 _ hk')] at he
  exact String.toList_inj.mp he ▸ hk'

/-- Records of the same keys with one normal form have it field by field. -/
theorem SameNormal.forall₂ {k l : MapKind} {fs gs : List (String × PyVal)}
    (h : pf.SameNormal (.fields k fs) (.fields l gs)) (hkeys : keys fs = keys gs) :
    List.Forall₂ (fun f g => f.1 = g.1 ∧ pf.SameNormal f.2 g.2) fs gs :=
  forall₂_of_keys hkeys fun key _ _ hv hw => h.value key hv hw

theorem SameNormal.symm {v w : PyVal} (h : pf.SameNormal v w) : pf.SameNormal w v := by
  obtain ⟨j,hv,hw⟩ := h
  exact ⟨j,hw,hv⟩

theorem SameNormal.trans {u v w : PyVal} (h : pf.SameNormal u v) (h' : pf.SameNormal v w) :
    pf.SameNormal u w := by
  obtain ⟨i,hu,hv⟩ := h
  obtain ⟨j,hv',hw⟩ := h'
  cases Except.ok.inj (hv.symm.trans hv')
  exact ⟨i,hu,hw⟩

theorem sameNormal_of_canonicalBytes {v w : PyVal} {b : Bytes} (hv : pf.canonicalBytes v = .ok b)
    (hw : pf.canonicalBytes w = .ok b) : pf.SameNormal v w := canonicalBytes_inj hv hw

theorem SameNormal.canonicalBytes_eq {v w : PyVal} (h : pf.SameNormal v w) :
    pf.canonicalBytes v = pf.canonicalBytes w := by
  obtain ⟨j,hv,hw⟩ := h
  rw [canonicalBytes,canonicalBytes,hv,hw]

/-- The value is in the portable profile. -/
def Portable (pf : Platform) (v : PyVal) : Prop := ∃ j, v.normalize pf.nfc true = .ok j

theorem portable_text {k : TextKind} {s : PyStr} (h : pf.Accepts (.text k s)) : pf.Portable (.text k s) := by
  obtain ⟨_,hs⟩ := accepts_text.mp h
  exact ⟨_,PyVal.normal_iff.mp (.text hs)⟩

theorem portable_int {n : Int} : pf.Portable (.int n) ↔ -maxSafeInteger ≤ n ∧ n ≤ maxSafeInteger := by
  constructor
  · rintro ⟨j,hj⟩
    cases PyVal.normal_iff.mpr hj with
    | int h => exact h rfl
  · exact fun h => ⟨_,PyVal.normal_iff.mp (.int fun _ => h)⟩

theorem portable_seq {k : SeqKind} {xs : List PyVal} (h : ∀ x ∈ xs, pf.Portable x) : pf.Portable (.seq k xs) := by
  obtain ⟨js,hjs⟩ := exists_forall₂ h
  exact ⟨_,PyVal.normal_iff.mp (.seq hjs)⟩

/-- A record that is accepted at all is portable when its fields are. -/
theorem Accepts.portable_fields {kind : MapKind} {fs : List (String × PyVal)} (h : pf.Accepts (.fields kind fs))
    (hp : ∀ f ∈ fs, pf.Portable f.2) : pf.Portable (.fields kind fs) := by
  obtain ⟨j,hj,_⟩ := accepts_iff.mp h
  obtain ⟨kvs,hkvs,hn,_⟩ := PyVal.normalize_fields.mp hj
  have entries : List.Forall₂ (PyVal.NormalField pf.nfc true) fs kvs := by
    refine forall₂_imp_of_mem (fun f hf kv hkv => ⟨hkv.1,?_⟩) hkvs
    obtain ⟨i,hi⟩ := hp f hf
    cases Except.ok.inj (hkv.2.symm.trans (PyVal.normalize_portable f.2 i hi).1)
    exact hi
  exact ⟨_,PyVal.normalize_fields.mpr ⟨kvs,entries,hn,rfl⟩⟩

/-- A digest as the reference writes it: lower-case hexadecimal text. -/
def IsHex (s : PyStr) : Prop := ∃ b, s = PyStr.ofChars (hexChars b)

theorem sha256Hex_eq_ok {v : PyVal} {d : PyStr} :
    pf.sha256Hex v = .ok d ↔ ∃ b, pf.canonicalBytes v = .ok b ∧ d = pf.sha256Bytes b := by
  simp only [sha256Hex,CheckChains.bind_eq_ok,CheckChains.pure_eq_ok,eq_comm (a := d)]

theorem exists_sha256Hex {v : PyVal} : (∃ d, pf.sha256Hex v = .ok d) ↔ pf.Accepts v := by
  simp only [sha256Hex_eq_ok,Accepts]
  constructor
  · rintro ⟨_,b,hb,_⟩
    exact ⟨b,hb⟩
  · rintro ⟨b,hb⟩
    exact ⟨_,b,hb,rfl⟩

theorem isHex_of_sha256Hex {v : PyVal} {d : PyStr} (h : pf.sha256Hex v = .ok d) : IsHex d := by
  obtain ⟨b,_,rfl⟩ := sha256Hex_eq_ok.mp h
  exact ⟨_,rfl⟩

theorem IsHex.scalars {s : PyStr} (h : IsHex s) : ∃ cs, s.scalars = some cs := by
  obtain ⟨b,rfl⟩ := h
  exact ⟨_,PyStr.scalars_ofChars _⟩

/-- Two digests in one NFC class are equal. -/
theorem IsHex.eq_of_sameText {nfc : Nfc} (hnfc : nfc.FixesAscii) {s t : PyStr} (hs : IsHex s) (ht : IsHex t)
    (h : SameText nfc s t) : s = t := by
  obtain ⟨b,rfl⟩ := hs
  obtain ⟨c,rfl⟩ := ht
  obtain ⟨x,y,hx,hy,he⟩ := h
  cases (PyStr.scalars_ofChars _).symm.trans hx
  cases (PyStr.scalars_ofChars _).symm.trans hy
  rw [hnfc _ (hexChars_ascii b),hnfc _ (hexChars_ascii c)] at he
  rw [he]

/-- Without collisions, one digest means one normal form. -/
theorem NoCollision.sameNormal (hc : pf.NoCollision) {v w : PyVal} {d : PyStr}
    (hv : pf.sha256Hex v = .ok d) (hw : pf.sha256Hex w = .ok d) : pf.SameNormal v w := by
  obtain ⟨a,ha,rfl⟩ := sha256Hex_eq_ok.mp hv
  obtain ⟨b,hb,he⟩ := sha256Hex_eq_ok.mp hw
  cases hc v w a b ha hb (hexChars_injective (PyStr.ofChars_injective he))
  exact sameNormal_of_canonicalBytes ha hb

theorem SameNormal.sha256Hex_eq {v w : PyVal} (h : pf.SameNormal v w) : pf.sha256Hex v = pf.sha256Hex w := by
  rw [sha256Hex,sha256Hex,h.canonicalBytes_eq]

end Platform
end ExecutionFinality
