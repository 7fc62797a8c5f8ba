import ExecutionFinality.Interop.CanonicalizerAgreement
import ExecutionFinality.Interop.GoVerifier
import ExecutionFinality.Interop.NodeVerifier

/-! One JSON document as both portable verifiers parse it: what their type assertions,
lookups and digests have in common. -/
namespace ExecutionFinality
open Utf8 (Bytes)
open KeyedEntries

mutual
/-- Every integer is in the portable range. -/
def PyVal.SafeInts : PyVal → Prop
  | .int n => -maxSafeInteger ≤ n ∧ n ≤ maxSafeInteger
  | .seq _ xs => PyVal.SafeItems xs
  | .mapping _ es => PyVal.SafeEntries es
  | _ => True

def PyVal.SafeItems : List PyVal → Prop
  | [] => True
  | x :: xs => x.SafeInts ∧ PyVal.SafeItems xs

def PyVal.SafeEntries : List (PyKey × PyVal) → Prop
  | [] => True
  | (_,v) :: es => v.SafeInts ∧ PyVal.SafeEntries es
end

/-- The two values hold one JSON value. -/
def SameJson (g : GoAny) (v : JsVal) : Prop := ∃ p : PyVal, GoValue p g ∧ NodeValue p v ∧ p.SafeInts

/-- The same field of two documents, which both may lack -/
def SameField (g : GoAny) (v : JsVal) : Prop := g = .nil ∧ v = .undefined ∨ SameJson g v

/-- A member of a Go map and the property that holds the same -/
def SameMember (e : GoStr × GoAny) (f : JsStr × JsVal) : Prop :=
  (∃ cs, e.1 = Utf8.encode cs ∧ f.1 = Utf16.encode cs) ∧ SameJson e.2 f.2

theorem safeItems_iff {xs : List PyVal} : PyVal.SafeItems xs ↔ ∀ x ∈ xs, x.SafeInts := by
  induction xs with
  | nil => simp [PyVal.SafeItems]
  | cons x xs ih => simp [PyVal.SafeItems,ih]

theorem safeEntries_iff {es : List (PyKey × PyVal)} : PyVal.SafeEntries es ↔ ∀ e ∈ es, e.2.SafeInts := by
  induction es with
  | nil => simp [PyVal.SafeEntries]
  | cons e es ih =>
    obtain ⟨k,v⟩ := e
    simp [PyVal.SafeEntries,ih]

variable {g : GoAny} {v : JsVal}

private theorem exists_items {xs : List GoAny} {ys : List JsVal} :
    List.Forall₂ SameJson xs ys ↔ ∃ ps : List PyVal, GoItems ps xs ∧ NodeItems ps ys ∧ PyVal.SafeItems ps := by
  constructor
  · intro h
    induction h with
    | nil => exact ⟨[],trivial,trivial,trivial⟩
    | cons h _ ih =>
      obtain ⟨p,hg,hv,hs⟩ := h
      obtain ⟨ps,hgs,hvs,hss⟩ := ih
      exact ⟨p :: ps,⟨hg,hgs⟩,⟨hv,hvs⟩,⟨hs,hss⟩⟩
  · rintro ⟨ps,hg,hv,hs⟩
    induction ps generalizing xs ys with
    | nil =>
      cases xs <;> cases ys <;> first | exact .nil | exact hg.elim | exact hv.elim
    | cons p ps ih =>
      cases xs with
      | nil => exact hg.elim
      | cons x xs =>
        cases ys with
        | nil => exact hv.elim
        | cons y ys => exact .cons ⟨p,hg.1,hv.1,hs.1⟩ (ih hg.2 hv.2 hs.2)

private theorem exists_entries {fs : List (GoStr × GoAny)} {gs : List (JsStr × JsVal)} :
    List.Forall₂ SameMember fs gs ↔ ∃ es, GoEntries es fs ∧ NodeEntries es gs ∧ PyVal.SafeEntries es := by
  simp only [goEntries_iff,nodeEntries_iff,safeEntries_iff]
  constructor
  · intro h
    induction h with
    | nil => exact ⟨[],.nil,.nil,fun _ h => nomatch h⟩
    | cons h _ ih =>
      obtain ⟨⟨cs,hb,hu⟩,p,hg,hv,hs⟩ := h
      obtain ⟨es,hfs,hgs,hss⟩ := ih
      have hkey : PyStr.ofChars cs = Utf16.codePoints (Utf16.encode cs) :=
        (PyStr.eq_ofChars_of_scalars (scalars_codePoints.mpr rfl)).symm
      refine ⟨(.str (PyStr.ofChars cs),p) :: es,.cons ⟨⟨_,cs,rfl,PyStr.scalars_ofChars cs,hb⟩,hg⟩ hfs,
        .cons ⟨?_,hv⟩ hgs,List.forall_mem_cons.mpr ⟨hs,hss⟩⟩
      rw [NodeKey,hu,hkey]
  · rintro ⟨es,hfs,hgs,hs⟩
    induction hfs generalizing gs with
    | nil => cases hgs; exact .nil
    | cons h _ ih =>
      cases hgs with
      | cons h' hgs =>
        obtain ⟨⟨s,cs,hkey,hcs,hb⟩,hg⟩ := h
        obtain ⟨hkey',hv⟩ := h'
        obtain ⟨hsafe,hs⟩ := List.forall_mem_cons.mp hs
        rw [hkey,NodeKey,PyKey.str.injEq] at hkey'
        exact .cons ⟨⟨cs,hb,scalars_codePoints.mp (hkey' ▸ hcs)⟩,_,hg,hv,hsafe⟩ (ih hgs hs)

/-- The two values, kind by kind -/
inductive SameKind : GoAny → JsVal → Prop
  | null : SameKind .nil .null
  | bool (b : Bool) : SameKind (.bool b) (.bool b)
  | number (n : Int) : -maxSafeInteger ≤ n ∧ n ≤ maxSafeInteger →
    SameKind (.number (Utf8.encode (Json.printInt n))) (.number (.finite n))
  | string (cs : List Char) : SameKind (.string (Utf8.encode cs)) (.string (Utf16.encode cs))
  | array {xs : List GoAny} {ys : List JsVal} : List.Forall₂ SameJson xs ys → SameKind (.slice xs) (.array ys)
  | object {es fs : List (GoStr × GoAny)} {gs hs : List (JsStr × JsVal)} :
    (keys es).Nodup → (keys hs).Nodup → fs.Perm es → gs.Perm hs → List.Forall₂ SameMember fs gs →
    SameKind (.map es) (.object hs)

theorem sameJson_iff {g : GoAny} {v : JsVal} : SameJson g v ↔ SameKind g v := by
  constructor
  · rintro ⟨p,hg,hv,hs⟩
    cases p <;> cases g <;> first | exact hg.elim | skip
    all_goals cases v <;> first | exact hv.elim | skip
    · exact .null
    · cases hg
      cases hv
      exact .bool _
    · cases hg
      cases hv
      exact .number _ hs
    · obtain ⟨cs,hcs,rfl⟩ := hg
      cases hv
      cases scalars_codePoints.mp hcs
      exact .string cs
    · exact .array (exists_items.mpr ⟨_,hg,hv,hs⟩)
    · obtain ⟨hn,fs,hperm,hfs⟩ := hg
      obtain ⟨hn',gs,hperm',hgs⟩ := hv
      exact .object hn hn' hperm hperm' (exists_entries.mpr ⟨_,hfs,hgs,hs⟩)
  · intro h
    cases h with
    | null => exact ⟨.none,trivial,trivial,trivial⟩
    | bool b => exact ⟨.bool b,rfl,rfl,trivial⟩
    | number n hn => exact ⟨.int n,rfl,rfl,hn⟩
    | string cs =>
      exact ⟨.str (PyStr.ofChars cs),⟨cs,PyStr.scalars_ofChars cs,rfl⟩,
        PyStr.eq_ofChars_of_scalars (scalars_codePoints.mpr rfl) ▸ rfl,trivial⟩
    | array h =>
      obtain ⟨ps,hg,hv,hs⟩ := exists_items.mp h
      exact ⟨.list ps,hg,hv,hs⟩
    | object hn hn' hperm hperm' h =>
      obtain ⟨es,hfs,hgs,hs⟩ := exists_entries.mp h
      exact ⟨.dict es,⟨hn,_,hperm,hfs⟩,⟨hn',_,hperm',hgs⟩,hs⟩

example : SameJson .nil .null := sameJson_iff.mpr .null

variable {g : GoAny} {v : JsVal}

theorem SameField.orNull (h : SameField g v) : SameJson g (Node.orNull v) := by
  rcases h with ⟨rfl,rfl⟩ | h
  · exact sameJson_iff.mpr .null
  · cases sameJson_iff.mp h <;> exact h

/-- Both are strings of one text, or neither is a string. -/
theorem SameField.string (h : SameField g v) {cs : List Char} :
    g = .string (Utf8.encode cs) ↔ v = .string (Utf16.encode cs) := by
  rcases h with ⟨rfl,rfl⟩ | h
  · simp
  · cases sameJson_iff.mp h <;> simp [Utf8.encode_injective.eq_iff,Utf16.encode_injective.eq_iff]

theorem SameField.s_eq_ok (h : SameField g v) {b : GoStr} :
    Go.s g = .ok b ↔ ∃ cs, b = Utf8.encode cs ∧ v = .string (Utf16.encode cs) := by
  rw [Go.s_eq_ok]
  rcases h with ⟨rfl,rfl⟩ | h
  · simp
  · cases sameJson_iff.mp h <;> simp [Utf16.encode_injective.eq_iff,eq_comm]

/-- Both are one safe integer, or neither is a number. -/
theorem SameField.num_eq_ok (h : SameField g v) {n : Int} :
    Go.num g = .ok n ↔ v = .number (.finite n) := by
  rcases h with ⟨rfl,rfl⟩ | h
  · simp [Go.num]
  · cases sameJson_iff.mp h with
    | number m hm =>
      have hrange : -2^63 ≤ m ∧ m < 2^63 := by
        unfold maxSafeInteger at hm
        omega
      simp only [Go.num,Go.setString_printInt,if_pos hrange,Except.ok.injEq,JsVal.number.injEq,
        Binary64.finite.injEq,Int.cast_inj]
    | _ => simp [Go.num]

theorem SameField.number (h : SameField g v) {x : Binary64} (hx : v = .number x) :
    ∃ n : Int, x = .finite n ∧ -maxSafeInteger ≤ n ∧ n ≤ maxSafeInteger := by
  rcases h with ⟨rfl,rfl⟩ | h
  · cases hx
  · cases sameJson_iff.mp h with
    | number n hn =>
      cases hx
      exact ⟨n,rfl,hn⟩
    | _ => cases hx

theorem SameField.arr_eq_ok (h : SameField g v) {xs : List GoAny} :
    Go.arr g = .ok xs ↔ ∃ ys, v = .array ys ∧ g = .slice xs ∧ List.Forall₂ SameJson xs ys := by
  rw [Go.arr_eq_ok]
  refine ⟨?_,fun ⟨_,_,h,_⟩ => h⟩
  rintro rfl
  rcases h with ⟨h,_⟩ | h
  · cases h
  · cases sameJson_iff.mp h with
    | array hxs => exact ⟨_,rfl,rfl,hxs⟩

theorem SameField.array (h : SameField g v) {ys : List JsVal} (hv : v = .array ys) :
    ∃ xs, g = .slice xs ∧ List.Forall₂ SameJson xs ys := by
  subst hv
  rcases h with ⟨_,h⟩ | h
  · cases h
  · cases sameJson_iff.mp h with
    | array hxs => exact ⟨_,rfl,hxs⟩

variable {es fs : List (GoStr × GoAny)} {gs : List (JsStr × JsVal)}

theorem sameJson_map (h : SameJson (.map es) v) : ∃ gs, v = .object gs ∧ (keys es).Nodup ∧ (keys gs).Nodup ∧
    ∃ es' gs', es'.Perm es ∧ gs'.Perm gs ∧ List.Forall₂ SameMember es' gs' := by
  cases sameJson_iff.mp h with
  | object hn hn' hperm hperm' hes => exact ⟨_,rfl,hn,hn',_,_,hperm,hperm',hes⟩

/-- Literal keys find the same field in both. -/
theorem SameJson.field (h : SameJson (.map es) v) (key : String) : SameField (Go.get es key) (Node.field v key) := by
  obtain ⟨gs,rfl,hn,hn',es',gs',hperm,hperm',h⟩ := sameJson_map h
  have hrel : Option.Rel SameJson (es'.lookup (go key)) (gs'.lookup (js key)) := by
    refine lookup_rel (h.imp fun e f ⟨⟨cs,he,hf⟩,hv⟩ => ⟨?_,hv⟩)
    rw [he,hf,go,js,Utf8.encode_injective.eq_iff,Utf16.encode_injective.eq_iff]
  rw [Go.get,Node.field,lookup_perm hn hperm.symm,lookup_perm hn' hperm'.symm]
  generalize es'.lookup (go key) = a at hrel
  generalize gs'.lookup (js key) = b at hrel
  cases hrel with
  | none => exact .inl ⟨rfl,rfl⟩
  | some h => exact .inr h

example (h : SameJson (.map es) v) : SameField (Go.get es "nonce") (Node.field v "nonce") := h.field "nonce"

theorem SameJson.of_obj (h : SameJson (.map es) v) {key : String} (hf : Go.obj (Go.get es key) = .ok fs) :
    SameJson (.map fs) (Node.field v key) := by
  rw [Go.obj_eq_ok] at hf
  rcases h.field key with ⟨hnil,_⟩ | h
  · cases hnil.symm.trans hf
  · exact hf ▸ h

/-- A value with a property is an object, so a map in Go. -/
theorem SameJson.exists_obj (h : SameJson (.map es) v) {key name : String} {s : JsStr}
    (hs : Node.field (Node.field v key) name = .string s) :
    ∃ fs, Go.obj (Go.get es key) = .ok fs ∧ SameJson (.map fs) (Node.field v key) := by
  rcases h.field key with ⟨_,hu⟩ | h
  · rw [hu] at hs
    cases hs
  · generalize Go.get es key = g at h
    generalize Node.field v key = w at h hs
    cases sameJson_iff.mp h with
    | object => exact ⟨_,rfl,h⟩
    | _ => cases hs

theorem SameJson.s_eq_ok (h : SameJson (.map es) v) {key : String} {b : GoStr} : Go.s (Go.get es key) = .ok b ↔
    ∃ cs, b = Utf8.encode cs ∧ Node.field v key = .string (Utf16.encode cs) := (h.field key).s_eq_ok

theorem SameJson.num_eq_ok (h : SameJson (.map es) v) {key : String} {n : Int} :
    Go.num (Go.get es key) = .ok n ↔ Node.field v key = .number (.finite n) := (h.field key).num_eq_ok

theorem SameJson.number (h : SameJson (.map es) v) {key : String} (hv : ∃ x, Node.field v key = .number x) :
    ∃ n : Int, Node.field v key = .number (.finite n) ∧ -maxSafeInteger ≤ n ∧ n ≤ maxSafeInteger := by
  obtain ⟨x,hx⟩ := hv
  obtain ⟨n,rfl,hn⟩ := (h.field key).number hx
  exact ⟨n,hx,hn⟩

theorem SameJson.safe (h : SameJson (.map es) v) {key : String} {n : Int}
    (hv : Node.field v key = .number (.finite n)) : -maxSafeInteger ≤ n ∧ n ≤ maxSafeInteger := by
  obtain ⟨m,hm,hsafe⟩ := h.number ⟨_,hv⟩
  cases Int.cast_inj.mp (Binary64.finite.inj (JsVal.number.inj (hv.symm.trans hm)))
  exact hsafe

theorem SameJson.string (h : SameJson (.map es) v) {key : String} {u : JsStr}
    (hv : Node.field v key = .string u) : ∃ cs, u = Utf16.encode cs := by
  rcases h.field key with ⟨_,h⟩ | h
  · cases h.symm.trans hv
  · rw [hv] at h
    generalize Go.get es key = g at h
    cases sameJson_iff.mp h
    exact ⟨_,rfl⟩

/-- Dropping one literal key keeps the documents the same. -/
theorem SameJson.filter (h : SameJson (.map es) (.object gs)) (key : String) :
    SameJson (.map (es.filter fun e => e.1 ≠ go key)) (.object (gs.filter fun f => f.1 ≠ js key)) := by
  obtain ⟨_,he,hn,hn',es',gs',hperm,hperm',h⟩ := sameJson_map h
  cases he
  refine sameJson_iff.mpr (.object ?_ ?_ (hperm.filter _) (hperm'.filter _) ?_)
  · exact hn.sublist (List.filter_sublist.map _)
  · exact hn'.sublist (List.filter_sublist.map _)
  · refine List.rel_filter (fun e f he => ?_) h
    obtain ⟨⟨cs,hek,hfk⟩,_⟩ := he
    simp only [decide_eq_true_eq]
    rw [hek,hfk,go,js,ne_eq,ne_eq,Utf8.encode_injective.eq_iff,Utf16.encode_injective.eq_iff]

theorem SameJson.unsigned (h : SameJson (.map es) v) :
    SameJson (.map (Go.unsigned es)) (.object (Node.unsigned v)) := by
  obtain ⟨gs,rfl,_⟩ := sameJson_map h
  exact h.filter "signature"

theorem SameJson.unsigned_without (h : SameJson (.map es) v) (key : String) :
    SameJson (.map (Go.without (Go.unsigned es) key))
      (.object ((Node.unsigned v).filter fun f => f.1 ≠ js key)) := h.unsigned.filter key

/-- A map literal and an object literal of the same fields -/
theorem sameJson_literal (ks : List String) (hk : ks.Nodup) (he : keys es = ks.map go) (hg : keys gs = ks.map js)
    (h : List.Forall₂ (fun e f => SameField e.2 f.2) es gs) : SameJson (.map es) (.object (Node.complete gs)) := by
  have hg' : keys (Node.complete gs) = ks.map js := by
    rw [← hg,keys,Node.complete,List.map_map]
    rfl
  refine sameJson_iff.mpr (.object ?_ ?_ (.refl _) (.refl _) ?_)
  · exact he ▸ hk.map fun _ _ he => String.toList_inj.mp (Utf8.encode_injective he)
  · exact hg' ▸ hk.map fun _ _ he => String.toList_inj.mp (Utf16.encode_injective he)
  · clear hk hg'
    rw [Node.complete,List.forall₂_map_right_iff]
    induction h generalizing ks with
    | nil => exact .nil
    | cons h _ ih =>
      cases ks with
      | nil => cases he
      | cons k ks =>
        obtain ⟨hk,he⟩ := List.cons.inj he
        obtain ⟨hk',hg⟩ := List.cons.inj hg
        exact .cons ⟨⟨k.toList,hk,hk'⟩,h.orNull⟩ (ih _ he hg)

variable {pf : Node.Platform}

theorem SameJson.canonical_iff (h : SameJson g v) {b : Bytes} :
    Go.canonical pf.nfc g = .ok b ↔ Node.canonicalBytes pf v = .ok b := by
  obtain ⟨p,hg,hv,_⟩ := h
  rw [goCanonical_iff hg,nodeCanonicalBytes_iff hv]

theorem SameJson.sha_eq_ok (h : SameJson g v) {d : GoStr} : Go.sha pf.toPlatform g = .ok d ↔
    ∃ cs, d = Utf8.encode cs ∧ Node.sha pf v = .ok (Utf16.encode cs) := by
  simp only [Go.sha_eq_ok,Node.sha_eq_ok,h.canonical_iff,Utf16.encode_injective.eq_iff]
  constructor
  · rintro ⟨b,hb,rfl⟩
    exact ⟨_,rfl,b,hb,rfl⟩
  · rintro ⟨_,rfl,b,hb,rfl⟩
    exact ⟨b,hb,rfl⟩

theorem SameJson.mac_eq_ok (h : SameJson g v) {key : Bytes} {d : GoStr} : Go.mac pf.toPlatform g key = .ok d ↔
    ∃ cs, d = Utf8.encode cs ∧ Node.mac pf v key = .ok (Utf16.encode cs) := by
  simp only [Go.mac_eq_ok,Node.mac_eq_ok,h.canonical_iff,Utf16.encode_injective.eq_iff]
  constructor
  · rintro ⟨b,hb,rfl⟩
    exact ⟨_,rfl,b,hb,rfl⟩
  · rintro ⟨_,rfl,b,hb,rfl⟩
    exact ⟨b,hb,rfl⟩

/-! Hexadecimal text, byte by byte in Go and unit by unit in Node. -/

private def hexChar? (c : Char) : Option Nat :=
  if 48 ≤ c.toNat ∧ c.toNat ≤ 57 then some (c.toNat - 48)
  else if 97 ≤ c.toNat ∧ c.toNat ≤ 102 then some (c.toNat - 87)
  else if 65 ≤ c.toNat ∧ c.toNat ≤ 70 then some (c.toNat - 55)
  else none

private theorem hexChar?_large {c : Char} (h : 128 ≤ c.toNat) : hexChar? c = none := by
  unfold hexChar?
  rw [if_neg (by omega),if_neg (by omega),if_neg (by omega)]

private theorem utf8_hexDigit (c : Char) : ∃ x xs, String.utf8EncodeChar c = x :: xs ∧
    Go.hexDigit? x = hexChar? c ∧ (∀ n, hexChar? c = some n → xs = []) := by
  rcases Nat.lt_or_ge c.toNat 128 with h | h
  · refine ⟨_,_,Utf8.encodeChar_ascii c h,?_,fun _ _ => rfl⟩
    have hx : (UInt8.ofNat c.toNat).toNat = c.toNat := by
      rw [UInt8.toNat_ofNat']
      exact Nat.mod_eq_of_lt (by omega)
    rw [Go.hexDigit?,hx,hexChar?]
  · obtain ⟨x,xs,he⟩ := List.exists_cons_of_ne_nil (String.utf8EncodeChar_ne_nil (c := c))
    have hx : 128 ≤ x.toNat := by
      have hc : ¬ c.val.toNat ≤ 127 := Nat.not_le_of_lt h
      have hmax : c.val.toNat < 0x110000 := by
        rcases c.valid with hv | hv
        · exact Nat.lt_trans hv (by decide)
        · exact hv.2
      rw [String.utf8EncodeChar] at he
      simp only [if_neg hc] at he
      split_ifs at he <;> cases he <;> rw [UInt8.toNat_ofNat'] <;> omega
    refine ⟨x,xs,he,?_,fun n hn => ?_⟩
    · rw [hexChar?_large h,Go.hexDigit?,if_neg (by omega),if_neg (by omega),if_neg (by omega)]
    · rw [hexChar?_large h] at hn
      cases hn

/-- Pairs of hexadecimal digits in ASCII and nothing else -/
def Node.IsHex (s : JsStr) : Prop := s.length % 2 = 0 ∧ ∀ u ∈ s, u.toNat < 128 ∧ (Node.hexDigit? u).isSome

private theorem utf16_hexDigit (c : Char) : ∃ u us, Utf16.encodeChar c = u :: us ∧
    (hexChar? c = none → ¬ (u.toNat < 128 ∧ (Node.hexDigit? u).isSome)) ∧
    ∀ n, hexChar? c = some n → us = [] ∧ u.toNat < 128 ∧ Node.hexDigit? u = some n := by
  rcases Utf16.encodeChar_cases c with ⟨u,he,hu,_,_⟩ | ⟨u,w,he,hp,hh,hl⟩
  · have hdigit (h : u.toNat < 128) : Node.hexDigit? u = hexChar? c := by
      have hlow : u.toNat % 256 = c.toNat := by omega
      rw [Node.hexDigit?,hlow,hexChar?]
    refine ⟨u,[],he,?_,fun n hn => ?_⟩
    · rintro hnone ⟨hascii,hsome⟩
      rw [hdigit hascii,hnone] at hsome
      cases hsome
    · have hascii : u.toNat < 128 := by
        by_contra hlarge
        rw [hexChar?_large (by omega)] at hn
        cases hn
      exact ⟨rfl,hascii,(hdigit hascii).trans hn⟩
  · have hlarge : 128 ≤ c.toNat := by
      rw [← hp,Utf16.pair_val hh hl]
      omega
    unfold Utf16.IsHigh at hh
    refine ⟨u,[w],he,fun _ h => by omega,fun n hn => ?_⟩
    rw [hexChar?_large hlarge] at hn
    cases hn

/-- Go decodes the texts that are hexadecimal throughout, to the bytes that Node reads. -/
theorem decodeString_eq_ok : ∀ {cs : List Char} {key : Bytes}, Go.decodeString (Utf8.encode cs) = .ok key ↔
    Node.IsHex (Utf16.encode cs) ∧ Node.hexPrefix (Utf16.encode cs) = key
  | [],key => by simp [Go.decodeString,Node.IsHex,Node.hexPrefix]
  | [c],key => by
    obtain ⟨x,xs,hx,hdx,hone⟩ := utf8_hexDigit c
    obtain ⟨u,us,hu,hnone,hone'⟩ := utf16_hexDigit c
    simp only [Utf8.encode_cons,Utf8.encode_nil,Utf16.encode_cons,Utf16.encode_nil,hx,hu,List.append_nil]
    cases hc : hexChar? c with
    | none =>
      rw [hc] at hdx
      refine iff_of_false ?_ fun h => hnone hc (h.1.2 u (by simp))
      cases xs <;> simp [Go.decodeString,hdx]
    | some a =>
      rw [hone a hc,(hone' a hc).1]
      exact iff_of_false (by simp [Go.decodeString]) fun h => by simpa using h.1.1
  | c :: d :: cs,key => by
    have ih (key : Bytes) := @decodeString_eq_ok cs key
    obtain ⟨x,xs,hx,hdx,hone⟩ := utf8_hexDigit c
    obtain ⟨u,us,hu,hnone,hone'⟩ := utf16_hexDigit c
    obtain ⟨y,ys,hy,hdy,hone₂⟩ := utf8_hexDigit d
    obtain ⟨w,ws,hw,hnone₂,hone₂'⟩ := utf16_hexDigit d
    simp only [Utf8.encode_cons,Utf16.encode_cons,hx,hu,hy,hw]
    cases hc : hexChar? c with
    | none =>
      rw [hc] at hdx
      refine iff_of_false ?_ fun h => hnone hc (h.1.2 u (by simp))
      cases xs <;> simp [Go.decodeString,hdx]
    | some a =>
      rw [hc] at hdx
      obtain ⟨rfl,hascii,hdu⟩ := hone' a hc
      rw [hone a hc]
      cases hd : hexChar? d with
      | none =>
        rw [hd] at hdy
        refine iff_of_false ?_ fun h => hnone₂ hd (h.1.2 w (by simp))
        simp [Go.decodeString,hdx,hdy]
      | some b =>
        rw [hd] at hdy
        obtain ⟨rfl,hascii₂,hdw⟩ := hone₂' b hd
        rw [hone₂ b hd]
        have heven (n : Nat) : (n + 2) % 2 = n % 2 := Nat.add_mod_right n 2
        simp only [List.cons_append,List.nil_append,Go.decodeString,hdx,hdy,CheckChains.bind_eq_ok,
          CheckChains.pure_eq_ok,ih,Node.IsHex,List.length_cons,heven,List.forall_mem_cons,hdu,hdw,hascii,hascii₂,
          Option.isSome_some,Node.hexPrefix,true_and]
        constructor
        · rintro ⟨_,⟨hhex,rfl⟩,rfl⟩
          exact ⟨hhex,rfl⟩
        · rintro ⟨hhex,rfl⟩
          exact ⟨_,⟨hhex,rfl⟩,rfl⟩

/-- Node takes each digit from the low byte of its code unit, so not all that it reads is hexadecimal. -/
example : Node.hexPrefix [0x130,0x131] = [1] ∧ ¬ Node.IsHex [0x130,0x131] :=
  ⟨rfl,fun h => absurd (h.2 _ (.head _)).1 (by decide)⟩

end ExecutionFinality
