import ExecutionFinality.Interop.ParsedDocuments

/-! The portable verifiers on one document: both pass it when its records are linked, Go if
also the asserted types are there, Node if also the hashed properties are. -/
namespace ExecutionFinality
open Utf8 (Bytes)
open Node (field strictEq Linked Present)

namespace Node

def Strings (v : JsVal) (ks : List String) : Prop := ∀ k ∈ ks, ∃ s, field v k = .string s

def Numbers (v : JsVal) (ks : List String) : Prop := ∀ k ∈ ks, ∃ x, field v k = .number x

def transitionNumbers : List String :=
  ["before_version","after_version","quota_before","quota_after","budget_before","budget_after"]

structure TypedScopes (c cap ctx : JsVal) : Prop where
  capability : ∃ xs, field cap "scope" = .array xs ∧ ∀ x ∈ xs, ∃ s, x = .string s
  candidate : ∃ xs, field c "scope" = .array xs
  supported : ∃ xs, field ctx "supported_scopes" = .array xs ∧
    (field cap "scope" ≠ .array [] → ∀ x ∈ xs, ∃ s, x = .string s)

/-- The compared fields have the types that the Go verifier asserts. -/
structure Typed (d : JsVal) : Prop where
  key : ∃ s, field d "authority_key_hex" = .string s ∧ IsHex s
  transition : Numbers (field d "state_transition") transitionNumbers
  capability : Strings (field d "capability") ["sink_id","boundary_id","nonce","authority_id"]
  capabilityNumbers : Numbers (field d "capability") ["policy_epoch","expires_at_ns"]
  context : Strings (field d "sink_context") ["sink_id","boundary_id","effect_class"]
  contextNumbers : Numbers (field d "sink_context") ["policy_epoch"]
  candidate : Strings (field d "candidate") ["nonce","effect_class"]
  candidateNumbers : Numbers (field d "candidate") ["issued_at_ns","freshness_ns"]
  evidence : Strings (field d "validation_evidence") ["authority_id"]
  scopes : TypedScopes (field d "candidate") (field d "capability") (field d "sink_context")

variable {pf : Platform}

theorem add_int (m n : Int) : add pf (.number (.finite m)) (.number (.finite n)) =
    .ok (.number (Binary64.round ((m + n : Int) : ℚ))) := by
  rw [Int.cast_add]
  rfl

theorem add_one {n : Int} (h : -maxSafeInteger ≤ n ∧ n ≤ maxSafeInteger) :
    add pf (.number (.finite n)) (.number (.finite 1)) = .ok (.number (.finite ((n + 1 : Int) : ℚ))) := by
  have hr : |n + 1| ≤ 2^53 := abs_le.mpr (by unfold maxSafeInteger at h; omega)
  rw [← Binary64.round_int hr,← add_int,Int.cast_one]

theorem sub_one {n : Int} (h : -maxSafeInteger ≤ n ∧ n ≤ maxSafeInteger) :
    sub pf (.number (.finite n)) (.number (.finite 1)) = .ok (.number (.finite ((n - 1 : Int) : ℚ))) := by
  have hr : |n - 1| ≤ 2^53 := abs_le.mpr (by unfold maxSafeInteger at h; omega)
  rw [← Binary64.round_int hr,Int.cast_sub,Int.cast_one,sub_eq_add_neg]
  rfl

theorem less_int (m n : Int) : less pf (.number (.finite m)) (.number (.finite n)) = .ok (decide (m < n)) := by
  have : Binary64.lt (.finite m) (.finite n) = decide (m < n) := decide_eq_decide.mpr Int.cast_lt
  rw [← this]
  rfl

/-- A rounded sum does not change the comparison with an exact integer. -/
theorem greater_round {m n : Int} (h : -maxSafeInteger ≤ m ∧ m ≤ maxSafeInteger) :
    greater pf (.number (.finite m)) (.number (Binary64.round (n : ℚ))) = .ok (decide (n < m)) := by
  have hlt : Binary64.lt (Binary64.round (n : ℚ)) (.finite m) = decide (n < m) :=
    Binary64.lt_round_int (abs_lt.mpr (by unfold maxSafeInteger at h; omega))
  rw [← hlt]
  rfl

theorem strictEq_int (m n : Int) : strictEq (.number (.finite m)) (.number (.finite n)) = true ↔ m = n := by
  simp [strictEq,Binary64.eq]

end Node

private theorem int64_of_small {n : Int} (h : -2^63 ≤ n ∧ n < 2^63) : Go.int64 n = n := by
  unfold Go.int64
  exact Int.bmod_eq_of_le (by omega) (by omega)

theorem encode_eq_go {cs : List Char} {s : String} : Utf8.encode cs = go s ↔ cs = s.toList :=
  Utf8.encode_injective.eq_iff

theorem exists_text {P : List Char → Prop} {Q : GoStr → Prop} :
    (∃ b, (∃ cs, b = Utf8.encode cs ∧ P cs) ∧ Q b) ↔ ∃ cs, P cs ∧ Q (Utf8.encode cs) := by
  constructor
  · rintro ⟨_,⟨cs,rfl,h⟩,h'⟩
    exact ⟨cs,h,h'⟩
  · rintro ⟨cs,h,h'⟩
    exact ⟨_,⟨cs,rfl,h⟩,h'⟩

variable {pf : Node.Platform} {c h t e cap ctx : List (GoStr × GoAny)} {c' h' t' e' cap' ctx' : JsVal}
  {cd : List Char} {key : Bytes} {u : Unit}

theorem sameJson_rebuilt (hc : SameJson (.map c) c') (hctx : SameJson (.map ctx) ctx') (pd : List Char) :
    SameJson (.map (Go.rebuilt c ctx (Utf8.encode pd)))
      (.object (Node.complete (Node.rebuilt c' ctx' (Utf16.encode pd)))) := by
  have string (cs : List Char) : SameField (.string (Utf8.encode cs)) (.string (Utf16.encode cs)) :=
    .inr (sameJson_iff.mpr (.string cs))
  refine sameJson_literal ["schema","act_id","act_class","effect_class","source","destination","purpose",
    "jurisdiction","policy_epoch","nonce","issued_at_ns","freshness_ns","sink_id","boundary_id","scope",
    "payload_digest","runtime_evidence_digest"] (by decide) rfl rfl ?_
  simp only [Go.rebuilt,Node.rebuilt,List.forall₂_cons,List.Forall₂.nil,and_true]
  exact ⟨string _,hc.field _,hc.field _,hc.field _,hc.field _,hc.field _,hc.field _,hc.field _,hc.field _,hc.field _,
    hc.field _,hc.field _,hctx.field _,hctx.field _,hc.field _,string pd,hc.field _⟩

theorem sameJson_transitionCore (ht : SameJson (.map t) t') (cd : List Char) :
    SameJson (.map (Go.transitionCore t (Utf8.encode cd)))
      (.object (Node.complete (Node.transitionCore t' (Utf16.encode cd)))) := by
  have string (cs : List Char) : SameField (.string (Utf8.encode cs)) (.string (Utf16.encode cs)) :=
    .inr (sameJson_iff.mpr (.string cs))
  refine sameJson_literal ["nonce","source","before_version","after_version","quota_before","quota_after",
    "budget_before","budget_after","policy_epoch","candidate_digest"] (by decide) rfl rfl ?_
  simp only [Go.transitionCore,Node.transitionCore,List.forall₂_cons,List.Forall₂.nil,and_true]
  exact ⟨ht.field _,ht.field _,ht.field _,ht.field _,ht.field _,ht.field _,ht.field _,ht.field _,ht.field _,string cd⟩

theorem goCheckDescriptor_eq_ok (hc : SameJson (.map c) c') (hh : SameJson (.map h) h') (he : SameJson (.map e) e')
    (hcap : SameJson (.map cap) cap') (hctx : SameJson (.map ctx) ctx') {s : GoStr} :
    Go.checkDescriptor pf.toPlatform c h e cap ctx = .ok s ↔
      ∃ cd, Node.LinkedDescriptor pf c' h' e' cap' ctx' cd ∧ s = Utf8.encode cd := by
  simp only [Go.checkDescriptor,CheckChains.bind_eq_ok,CheckChains.failIf_eq_ok,CheckChains.pure_eq_ok,Go.eq_eq_ok,
    exists_const,not_not,hc.s_eq_ok,hh.s_eq_ok,he.s_eq_ok,hcap.s_eq_ok,hc.sha_eq_ok,hh.sha_eq_ok,
    (hc.field "payload").orNull.sha_eq_ok,(sameJson_rebuilt hc hctx _).sha_eq_ok,exists_text,
    Utf8.encode_injective.eq_iff,encode_eq_go,existsAndEq,true_and]
  constructor
  · rintro ⟨hstatus,cd,hcd,hcap',he',pd,hpd,hh',dd,hdd,hcap'',he'',hh'',rfl⟩
    exact ⟨cd,⟨hstatus,hcd,hcap',he',pd,dd,hpd,hh',hdd,hcap'',he'',hh''⟩,rfl⟩
  · rintro ⟨cd,⟨hstatus,hcd,hcap',he',pd,dd,hpd,hh',hdd,hcap'',he'',hh''⟩,rfl⟩
    exact ⟨hstatus,cd,hcd,hcap',he',pd,hpd,hh',dd,hdd,hcap'',he'',hh'',rfl⟩

theorem goCheckTransition_eq_ok (ht : SameJson (.map t) t') (he : SameJson (.map e) e')
    (hcap : SameJson (.map cap) cap') : Go.checkTransition pf.toPlatform (Utf8.encode cd) t e cap = .ok u ↔
      Node.Numbers t' Node.transitionNumbers ∧ Node.LinkedTransition pf cd t' e' cap' := by
  simp only [Go.checkTransition,CheckChains.bind_eq_ok,CheckChains.failIf_eq_ok,Go.eq_eq_ok,exists_const,not_not,
    ht.num_eq_ok,ht.s_eq_ok,he.s_eq_ok,hcap.s_eq_ok,(sameJson_transitionCore ht _).sha_eq_ok,exists_text,
    Utf8.encode_injective.eq_iff,existsAndEq,true_and,and_true]
  have small {n : Int} (hn : -maxSafeInteger ≤ n ∧ n ≤ maxSafeInteger) :
      Go.int64 (n + 1) = n + 1 ∧ Go.int64 (n - 1) = n - 1 := by
    unfold maxSafeInteger at hn
    exact ⟨int64_of_small (by omega),int64_of_small (by omega)⟩
  constructor
  · rintro ⟨tid,hid,htid,b,ha,hb,q,hqa,hq,x,hx,y,hy,hxy,i,hi,hcap',j,hj,he'⟩
    cases Utf16.encode_injective (JsVal.string.inj (htid.symm.trans hi))
    cases Utf16.encode_injective (JsVal.string.inj (htid.symm.trans hj))
    rw [(small (ht.safe hb)).1] at ha
    rw [(small (ht.safe hq)).2] at hqa
    refine ⟨?_,⟨tid,hid,htid,hcap',he'⟩,⟨_,by rw [hb,Node.add_one (ht.safe hb)],?_⟩,
      ⟨_,by rw [hq,Node.sub_one (ht.safe hq)],?_⟩,?_⟩
    · simp [Node.Numbers,Node.transitionNumbers,ha,hb,hqa,hq,hx,hy]
    · rw [ha,Node.strictEq_int]
    · rw [hqa,Node.strictEq_int]
    · rw [hx,hy,Node.less_int,decide_eq_true (by omega)]
  · rintro ⟨hnumbers,⟨tid,hid,htid,hcap',he'⟩,⟨v,hv,hversion⟩,⟨w,hw,hquota⟩,hbudget⟩
    have number (k : String) (hk : k ∈ Node.transitionNumbers) := ht.number (hnumbers k hk)
    obtain ⟨b,hb,hbs⟩ := number "before_version" (by decide)
    obtain ⟨a,ha,_⟩ := number "after_version" (by decide)
    obtain ⟨q,hq,hqs⟩ := number "quota_before" (by decide)
    obtain ⟨p,hp,_⟩ := number "quota_after" (by decide)
    obtain ⟨x,hx,_⟩ := number "budget_after" (by decide)
    obtain ⟨y,hy,_⟩ := number "budget_before" (by decide)
    rw [hb,Node.add_one hbs] at hv
    rw [hq,Node.sub_one hqs] at hw
    cases hv
    cases hw
    rw [ha,Node.strictEq_int] at hversion
    rw [hp,Node.strictEq_int] at hquota
    rw [hx,hy,Node.less_int] at hbudget
    have hlt := of_decide_eq_true (Except.ok.inj hbudget)
    refine ⟨tid,hid,htid,b,?_,hb,q,?_,hq,x,hx,y,hy,by omega,tid,htid,hcap',tid,htid,he'⟩
    · rw [(small hbs).1,← hversion,ha]
    · rw [(small hqs).2,← hquota,hp]

theorem goCheckEvidence_eq_ok (he : SameJson (.map e) e') :
    Go.checkEvidence pf.toPlatform key e = .ok u ↔ Node.LinkedEvidence pf key e' := by
  simp only [Go.checkEvidence,CheckChains.bind_eq_ok,CheckChains.failIf_eq_ok,Go.eq_eq_ok,exists_const,not_not,
    he.s_eq_ok,he.unsigned.mac_eq_ok,(he.unsigned_without _).sha_eq_ok,exists_text,Utf8.encode_injective.eq_iff,
    encode_eq_go,existsAndEq,true_and,and_true]
  constructor
  · rintro ⟨m,hm,hsignature,i,hi,hid,hdecision⟩
    exact ⟨⟨m,hm,hsignature⟩,⟨i,hi,hid⟩,hdecision⟩
  · rintro ⟨⟨m,hm,hsignature⟩,⟨i,hi,hid⟩,hdecision⟩
    exact ⟨m,hm,hsignature,i,hi,hid,hdecision⟩

/-- Two strings of a document that JavaScript finds equal have one text. -/
theorem exists_string_of_strictEq (h : SameJson (.map c) c') {k : String} {w : JsVal} (hk : ∃ s, field c' k = .string s)
    (heq : strictEq (field c' k) w = true) :
    ∃ cs, field c' k = .string (Utf16.encode cs) ∧ w = .string (Utf16.encode cs) := by
  obtain ⟨s,hs⟩ := hk
  obtain ⟨cs,rfl⟩ := h.string hs
  rw [hs,Node.string_strictEq] at heq
  exact ⟨cs,hs,heq⟩

theorem exists_number_of_strictEq (h : SameJson (.map c) c') {k : String} {w : JsVal} (hk : ∃ x, field c' k = .number x)
    (heq : strictEq (field c' k) w = true) :
    ∃ n : Int, field c' k = .number (.finite n) ∧ w = .number (.finite n) := by
  obtain ⟨n,hn,_⟩ := h.number hk
  rw [hn] at heq
  refine ⟨n,hn,?_⟩
  cases w <;> simp [strictEq,Binary64.eq] at heq
  rw [heq]

theorem goCheckCapability_eq_ok (hc : SameJson (.map c) c') (he : SameJson (.map e) e')
    (hcap : SameJson (.map cap) cap') (hctx : SameJson (.map ctx) ctx') :
    Go.checkCapability pf.toPlatform key c e cap ctx = .ok u ↔
      (Node.Strings cap' ["sink_id","boundary_id","nonce","authority_id"] ∧
        Node.Strings ctx' ["sink_id","boundary_id"] ∧ Node.Strings c' ["nonce"] ∧ Node.Strings e' ["authority_id"] ∧
        Node.Numbers cap' ["policy_epoch"] ∧ Node.Numbers ctx' ["policy_epoch"]) ∧
      Node.LinkedCapability pf key c' e' cap' ctx' := by
  simp only [Go.checkCapability,CheckChains.bind_eq_ok,CheckChains.failIf_eq_ok,Go.eq_eq_ok,exists_const,not_not,
    hc.s_eq_ok,he.s_eq_ok,hcap.s_eq_ok,hctx.s_eq_ok,hcap.num_eq_ok,hctx.num_eq_ok,hcap.unsigned.mac_eq_ok,
    (hcap.unsigned_without _).sha_eq_ok,exists_text,Utf8.encode_injective.eq_iff,existsAndEq,true_and,and_true]
  constructor
  · rintro ⟨m,hm,hsignature,i,hi,hid,s,hs,hs',b,hb,hb',n,hn,hn',x,hx,hx',a,ha,ha'⟩
    refine ⟨?_,⟨m,hm,hsignature⟩,⟨i,hi,hid⟩,?_,?_,?_,?_,?_⟩
    · simp [Node.Strings,Node.Numbers,hs,hs',hb,hb',hn,hn',hx,hx',ha,ha']
    · rw [hs,hs',Node.strictEq_string]
    · rw [hb,hb',Node.strictEq_string]
    · rw [hn,hn',Node.strictEq_int]
    · rw [hx,hx',Node.strictEq_string]
    · rw [ha,ha',Node.strictEq_string]
  · rintro ⟨⟨hstrings,_,_,_,hnumbers,_⟩,⟨m,hm,hsignature⟩,⟨i,hi,hid⟩,hsink,hboundary,hepoch,hnonce,hauthority⟩
    obtain ⟨s,hs,hs'⟩ := exists_string_of_strictEq hcap (hstrings "sink_id" (by simp)) hsink
    obtain ⟨b,hb,hb'⟩ := exists_string_of_strictEq hcap (hstrings "boundary_id" (by simp)) hboundary
    obtain ⟨n,hn,hn'⟩ := exists_number_of_strictEq hcap (hnumbers "policy_epoch" (by simp)) hepoch
    obtain ⟨x,hx,hx'⟩ := exists_string_of_strictEq hcap (hstrings "nonce" (by simp)) hnonce
    obtain ⟨a,ha,ha'⟩ := exists_string_of_strictEq hcap (hstrings "authority_id" (by simp)) hauthority
    exact ⟨m,hm,hsignature,i,hi,hid,s,hs,hs',b,hb,hb',n,hn,hn',x,hx,hx',a,ha,ha'⟩

theorem goCheckEffect_eq_ok (hc : SameJson (.map c) c') (hcap : SameJson (.map cap) cap')
    (hctx : SameJson (.map ctx) ctx') : Go.checkEffect c cap ctx = .ok u ↔
      (Node.Strings c' ["effect_class"] ∧ Node.Strings ctx' ["effect_class"] ∧ Node.Numbers cap' ["expires_at_ns"] ∧
        Node.Numbers c' ["issued_at_ns","freshness_ns"]) ∧ Node.LinkedEffect pf c' cap' ctx' := by
  simp only [Go.checkEffect,CheckChains.bind_eq_ok,CheckChains.failIf_eq_ok,Go.eq_eq_ok,exists_const,hc.s_eq_ok,
    hctx.s_eq_ok,hcap.num_eq_ok,hc.num_eq_ok,exists_text,Utf8.encode_injective.eq_iff,existsAndEq,true_and]
  have compared {x i f : Int} (hx : field cap' "expires_at_ns" = .number (.finite x))
      (hi : field c' "issued_at_ns" = .number (.finite i)) (hf : field c' "freshness_ns" = .number (.finite f)) :
      ¬ x > Go.int64 (i + f) ↔ Node.greater pf (field cap' "expires_at_ns")
        (.number (Binary64.round ((i + f : Int) : ℚ))) = .ok false := by
    have his := hc.safe hi
    have hfs := hc.safe hf
    unfold maxSafeInteger at his hfs
    rw [int64_of_small (by omega),hx,Node.greater_round (hcap.safe hx),Except.ok.injEq,decide_eq_false_iff_not]
  constructor
  · rintro ⟨s,hs,hs',x,hx,i,hi,f,hf,hle⟩
    refine ⟨by simp [Node.Strings,Node.Numbers,hs,hs',hx,hi,hf],?_,_,by rw [hi,hf,Node.add_int],?_⟩
    · rw [hs,hs',Node.strictEq_string]
    · exact (compared hx hi hf).mp hle
  · rintro ⟨⟨hstrings,_,hnumbers,hnumbers'⟩,heffect,v,hv,hgreater⟩
    obtain ⟨s,hs,hs'⟩ := exists_string_of_strictEq hc (hstrings "effect_class" (by simp)) heffect
    obtain ⟨x,hx,_⟩ := hcap.number (hnumbers "expires_at_ns" (by simp))
    obtain ⟨i,hi,_⟩ := hc.number ( hnumbers' "issued_at_ns" (by simp))
    obtain ⟨f,hf,_⟩ := hc.number ( hnumbers' "freshness_ns" (by simp))
    rw [hi,hf,Node.add_int] at hv
    cases hv
    exact ⟨s,hs,hs',x,hx,i,hi,f,hf,(compared hx hi hf).mpr hgreater⟩

/-! Scopes: both loops compare two lists of strings. -/

private def goTexts (ts : List (List Char)) : List GoAny := ts.map fun t => .string (Utf8.encode t)

private def nodeTexts (ts : List (List Char)) : List JsVal := ts.map fun t => .string (Utf16.encode t)

private theorem goTexts_injective : Function.Injective goTexts :=
  List.map_injective_iff.mpr fun _ _ h => Utf8.encode_injective (GoAny.string.inj h)

private theorem nodeTexts_injective : Function.Injective nodeTexts :=
  List.map_injective_iff.mpr fun _ _ h => Utf16.encode_injective (JsVal.string.inj h)

private theorem nodeTexts_strings {ts : List (List Char)} : ∀ v ∈ nodeTexts ts, ∃ s, v = .string s := by
  intro v hv
  obtain ⟨t,_,rfl⟩ := List.mem_map.mp hv
  exact ⟨_,rfl⟩

private theorem goTexts_strings {ts : List (List Char)} : ∀ v ∈ goTexts ts, ∃ b, v = .string b := by
  intro v hv
  obtain ⟨t,_,rfl⟩ := List.mem_map.mp hv
  exact ⟨_,rfl⟩

private theorem exists_texts {xs : List GoAny} {ys : List JsVal}
    (h : List.Forall₂ (fun x y => ∃ t, x = .string (Utf8.encode t) ∧ y = .string (Utf16.encode t)) xs ys) :
    ∃ ts, xs = goTexts ts ∧ ys = nodeTexts ts := by
  obtain ⟨ts,hts,rfl⟩ := KeyedEntries.forall₂_map_image.mp h
  refine ⟨ts,?_,rfl⟩
  rw [← xs.map_id]
  exact KeyedEntries.map_eq_iff_forall₂.mpr hts

private theorem nodeTexts_of_go {xs : List GoAny} {ys : List JsVal} (h : List.Forall₂ SameJson xs ys)
    (hs : ∀ x ∈ xs, ∃ b, x = .string b) : ∃ ts, xs = goTexts ts ∧ ys = nodeTexts ts := by
  refine exists_texts (KeyedEntries.forall₂_imp_of_mem (fun x hx y hxy => ?_) h)
  obtain ⟨b,rfl⟩ := hs x hx
  cases sameJson_iff.mp hxy
  exact ⟨_,rfl,rfl⟩

private theorem goTexts_of_node {xs : List GoAny} {ys : List JsVal} (h : List.Forall₂ SameJson xs ys)
    (hs : ∀ y ∈ ys, ∃ s, y = .string s) : ∃ ts, xs = goTexts ts ∧ ys = nodeTexts ts := by
  refine exists_texts (List.Forall₂.flip (KeyedEntries.forall₂_imp_of_mem (fun y hy x hxy => ?_) h.flip))
  obtain ⟨s,rfl⟩ := hs y hy
  cases sameJson_iff.mp hxy
  exact ⟨_,rfl,rfl⟩

private theorem supported_eq_ok {v : GoAny} {xs : List GoAny} {ok b : Bool} : Go.supported v xs ok = .ok b ↔
    (xs ≠ [] → ∃ a, v = .string a) ∧ (∀ x ∈ xs, ∃ a, x = .string a) ∧ (b = true ↔ ok = true ∨ v ∈ xs) := by
  induction xs generalizing ok with
  | nil => cases ok <;> cases b <;> simp [Go.supported]
  | cons x xs ih =>
    simp only [Go.supported,CheckChains.bind_eq_ok,Go.s_eq_ok,ih,Bool.or_eq_true,decide_eq_true_eq,
      List.forall_mem_cons]
    constructor
    · rintro ⟨a,rfl,c,rfl,_,hxs,hb⟩
      refine ⟨fun _ => ⟨a,rfl⟩,⟨⟨c,rfl⟩,hxs⟩,?_⟩
      rw [hb,List.mem_cons,GoAny.string.injEq,or_assoc]
    · rintro ⟨hv,⟨⟨c,rfl⟩,hxs⟩,hb⟩
      obtain ⟨a,rfl⟩ := hv (by simp)
      refine ⟨a,rfl,c,rfl,fun _ => ⟨a,rfl⟩,hxs,?_⟩
      rw [hb,List.mem_cons,GoAny.string.injEq,or_assoc]

private theorem checkScope_eq_ok {ys xs cs : List GoAny} (hy : Go.get c "scope" = .slice ys) {i : Nat} :
    Go.checkScope c xs i cs = .ok u ↔ (∀ v ∈ cs, ∃ a, v = .string a) ∧
      (cs ≠ [] → ∀ x ∈ xs, ∃ a, x = .string a) ∧ cs <+: ys.drop i ∧ ∀ v ∈ cs, v ∈ xs := by
  induction cs generalizing i with
  | nil => simp [Go.checkScope]
  | cons v cs ih =>
    have harr : Go.arr (Go.get c "scope") = .ok ys := Go.arr_eq_ok.mpr hy
    simp only [Go.checkScope,harr,CheckChains.bind_eq_ok,CheckChains.ok_bind]
    rcases Nat.lt_or_ge i ys.length with hi | hi
    · rw [List.getElem?_eq_getElem hi,List.drop_eq_getElem_cons hi]
      simp only [CheckChains.bind_eq_ok,CheckChains.failIf_eq_ok,exists_const,not_not,Go.s_eq_ok,supported_eq_ok,
        Bool.not_eq_false,ih,List.cons_prefix_cons,List.forall_mem_cons]
      constructor
      · rintro ⟨a,rfl,b,hb,rfl,_,⟨_,hxs,hiff⟩,rfl,hcs,_,hpre,hmem⟩
        exact ⟨⟨⟨a,rfl⟩,hcs⟩,fun _ => hxs,⟨hb.symm,hpre⟩,(hiff.mp rfl).resolve_left (by simp),hmem⟩
      · rintro ⟨⟨⟨a,rfl⟩,hcs⟩,hxs,⟨hb,hpre⟩,hv,hmem⟩
        exact ⟨a,rfl,a,hb.symm,rfl,true,⟨fun _ => ⟨a,rfl⟩,hxs (by simp),by simp [hv]⟩,rfl,hcs,
          fun _ => hxs (by simp),hpre,hmem⟩
    · rw [List.getElem?_eq_none hi,List.drop_eq_nil_of_le hi]
      refine iff_of_false ?_ ?_
      · rintro ⟨_,_,h⟩
        cases h
      · rintro ⟨_,_,h,_⟩
        cases List.prefix_nil.mp h

private theorem mem_texts {xs : List GoAny} {ys : List JsVal} (h : List.Forall₂ SameJson xs ys) {ts : List (List Char)} :
    (∀ v ∈ goTexts ts, v ∈ xs) ↔ ∀ v ∈ nodeTexts ts, v ∈ ys := by
  have text (t : List Char) : GoAny.string (Utf8.encode t) ∈ xs ↔ JsVal.string (Utf16.encode t) ∈ ys := by
    induction h with
    | nil => simp
    | cons h _ ih => rw [List.mem_cons,List.mem_cons,ih,eq_comm,(SameField.string (.inr h)),eq_comm]
  simp only [goTexts,nodeTexts,List.forall_mem_map,text]

theorem goCheckScopes_eq_ok (hc : SameJson (.map c) c') (hcap : SameJson (.map cap) cap')
    (hctx : SameJson (.map ctx) ctx') : Go.checkScopes c cap ctx = .ok u ↔
      Node.TypedScopes c' cap' ctx' ∧ Node.LinkedScopes pf c' cap' ctx' := by
  simp only [Go.checkScopes,CheckChains.bind_eq_ok,CheckChains.failIf_eq_ok,exists_const,not_not,Go.arr_eq_ok]
  constructor
  · rintro ⟨cs,hcs,xs,hxs,ys,hys,hlen,hloop⟩
    obtain ⟨hstrings,hsupported,hpre,hmem⟩ := (checkScope_eq_ok hys).mp hloop
    obtain ⟨cs',hcs',_,hsame⟩ := (hcap.field "scope").arr_eq_ok.mp (Go.arr_eq_ok.mpr hcs)
    obtain ⟨xs',hxs',_,hsameX⟩ := (hctx.field "supported_scopes").arr_eq_ok.mp (Go.arr_eq_ok.mpr hxs)
    obtain ⟨ys',hys',_,hsameY⟩ := (hc.field "scope").arr_eq_ok.mp (Go.arr_eq_ok.mpr hys)
    obtain ⟨ts,rfl,rfl⟩ := nodeTexts_of_go hsame hstrings
    cases hpre.eq_of_length hlen
    obtain ⟨us,hus,rfl⟩ := nodeTexts_of_go hsameY hstrings
    cases goTexts_injective hus
    refine ⟨⟨⟨_,hcs',nodeTexts_strings⟩,⟨_,hys'⟩,_,hxs',fun hne => ?_⟩,_,hcs',⟨_,by rw [hys',Node.length],?_⟩,?_,?_⟩
    · have hcons : goTexts ts ≠ [] := by
        intro h
        cases goTexts_injective (show goTexts ts = goTexts [] from h)
        exact hne hcs'
      obtain ⟨vs,rfl,rfl⟩ := nodeTexts_of_go hsameX (hsupported hcons)
      exact nodeTexts_strings
    · rw [Node.strictEq_int]
    · rw [hys',Node.everyEqual_strings nodeTexts_strings]
      exact List.prefix_refl _
    · rw [Node.everySupported_strings hxs' nodeTexts_strings]
      exact (mem_texts hsameX).mp hmem
  · rintro ⟨⟨⟨cs',hcs',hstrings⟩,⟨ys',hys'⟩,xs',hxs',hsupported⟩,cs'',hcs'',⟨n,hn,hlen⟩,hequal,hmem⟩
    cases hcs'.symm.trans hcs''
    obtain ⟨cs,hcs,hsame⟩ := (hcap.field "scope").array hcs'
    obtain ⟨xs,hxs,hsameX⟩ := (hctx.field "supported_scopes").array hxs'
    obtain ⟨ys,hys,hsameY⟩ := (hc.field "scope").array hys'
    obtain ⟨ts,rfl,rfl⟩ := goTexts_of_node hsame hstrings
    rw [hys',Node.length] at hn
    cases hn
    rw [Node.strictEq_int,Int.natCast_inj] at hlen
    rw [hys',Node.everyEqual_strings nodeTexts_strings] at hequal
    cases hequal.eq_of_length hlen
    obtain ⟨us,rfl,hus⟩ := goTexts_of_node hsameY nodeTexts_strings
    cases nodeTexts_injective hus
    refine ⟨_,hcs,xs,hxs,_,hys,rfl,(checkScope_eq_ok hys).mpr ⟨goTexts_strings,fun hne => ?_,List.prefix_refl _,?_⟩⟩
    · have hcons : field cap' "scope" ≠ .array [] := by
        intro h
        cases nodeTexts_injective (show nodeTexts ts = nodeTexts [] from JsVal.array.inj (hcs'.symm.trans h))
        exact hne rfl
      obtain ⟨vs,rfl,rfl⟩ := goTexts_of_node hsameX (hsupported hcons)
      exact goTexts_strings
    · exact (mem_texts hsameX).mpr ((Node.everySupported_strings hxs' nodeTexts_strings).mp hmem)


/-- The Go verifier passes a bundle when the asserted types are there and the records are
linked. -/
theorem finalityverify_ok {d : List (GoStr × GoAny)} {d' : JsVal} (h : SameJson (.map d) d') :
    (∃ out, Go.finalityverify pf.toPlatform d = .ok out) ↔ Node.Typed d' ∧ Linked pf d' := by
  simp only [Go.finalityverify,CheckChains.bind_eq_ok,CheckChains.pure_eq_ok,h.s_eq_ok,exists_text,
    decodeString_eq_ok]
  constructor
  · rintro ⟨_,s,hs,key,⟨hhex,hkey⟩,c,hc,h',hh,t,ht,e,he,cap,hcap,ctx,hctx,cd,hcd,_,htransition,_,hevidence,
      _,hcapability,_,hscopes,_,heffect,_⟩
    replace hc := h.of_obj hc
    replace he := h.of_obj he
    replace hcap := h.of_obj hcap
    replace hctx := h.of_obj hctx
    obtain ⟨cd,hdescriptor,rfl⟩ := (goCheckDescriptor_eq_ok hc (h.of_obj hh) he hcap hctx).mp hcd
    obtain ⟨hnumbers,htransition⟩ := (goCheckTransition_eq_ok (h.of_obj ht) he hcap).mp htransition
    obtain ⟨⟨hcapS,hctxS,hcS,heS,hcapN,hctxN⟩,hcapability⟩ := (goCheckCapability_eq_ok hc he hcap hctx).mp hcapability
    obtain ⟨htyped,hscopes⟩ := (goCheckScopes_eq_ok hc hcap hctx).mp hscopes
    obtain ⟨⟨hcS',hctxS',hcapN',hcN⟩,heffect⟩ := (goCheckEffect_eq_ok hc hcap hctx).mp heffect
    refine ⟨⟨⟨_,hs,hhex⟩,hnumbers,hcapS,?_,?_,hctxN,?_,hcN,heS,htyped⟩,key,cd,?_,hdescriptor,htransition,
      (goCheckEvidence_eq_ok he).mp hevidence,hcapability,hscopes,heffect⟩
    · exact List.forall_mem_cons.mpr ⟨hcapN _ (by simp),hcapN'⟩
    · exact List.forall_mem_append.mpr ⟨hctxS,hctxS'⟩
    · exact List.forall_mem_cons.mpr ⟨hcS _ (by simp),hcS'⟩
    · rw [hs,← hkey]
      rfl
  · rintro ⟨⟨⟨u,hu,hhex⟩,hnumbers,hcapS,hcapN,hctxS,hctxN,hcS,hcN,heS,htyped⟩,key,cd,hkey,hdescriptor,htransition,
      hevidence,hcapability,hscopes,heffect⟩
    obtain ⟨s,rfl⟩ := h.string hu
    rw [hu,Node.bufferFromHex] at hkey
    cases hkey
    obtain ⟨pd,dd,_,hpd,_⟩ := hdescriptor.descriptor
    obtain ⟨tid,_,htid,_⟩ := htransition.transitionId
    obtain ⟨x,hx⟩ := hctxS "sink_id" (by simp)
    obtain ⟨c,hc,hc'⟩ := h.exists_obj hdescriptor.status
    obtain ⟨h₁,hh,hh'⟩ := h.exists_obj hpd
    obtain ⟨t,ht,ht'⟩ := h.exists_obj htid
    obtain ⟨e,he,he'⟩ := h.exists_obj hdescriptor.evidenceCandidate
    obtain ⟨cap,hcap,hcap'⟩ := h.exists_obj hdescriptor.capCandidate
    obtain ⟨ctx,hctx,hctx'⟩ := h.exists_obj hx
    refine ⟨_,s,hu,_,⟨hhex,rfl⟩,c,hc,h₁,hh,t,ht,e,he,cap,hcap,ctx,hctx,_,
      (goCheckDescriptor_eq_ok hc' hh' he' hcap' hctx').mpr ⟨cd,hdescriptor,rfl⟩,
      (),(goCheckTransition_eq_ok ht' he' hcap').mpr ⟨hnumbers,htransition⟩,(),(goCheckEvidence_eq_ok he').mpr hevidence,
      (),(goCheckCapability_eq_ok hc' he' hcap' hctx').mpr ⟨⟨hcapS,?_,?_,heS,?_,hctxN⟩,hcapability⟩,
      (),(goCheckScopes_eq_ok hc' hcap' hctx').mpr ⟨htyped,hscopes⟩,
      (),(goCheckEffect_eq_ok hc' hcap' hctx').mpr ⟨⟨?_,?_,?_,hcN⟩,heffect⟩,rfl⟩
    all_goals
      intro k hk
      first
        | exact hctxS k (by simp at hk ⊢; tauto)
        | exact hcS k (by simp at hk ⊢; tauto)
        | exact hcapN k (by simp at hk ⊢; tauto)

end ExecutionFinality
