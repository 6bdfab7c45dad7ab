import Dalston.Foundation.Base64
import Dalston.Model.Json
import Dalston.Model.TextWrap

/-!
# Signatures of webhooks

The webhook service signs the id, the time and the body of a request, joined by dots, with a key
that the secret denotes. The SDK of the receiver splits the secret and joins the three again.

## Implementation notes

The keyed hash is a parameter without laws: what is accepted is stated up to its collisions. The
decimal digits of Unicode and the texts of JSON values are parameters with the laws that are used.
What the receiver reads in an accepted body is not modelled.
-/

namespace Dalston.Gateway.WebhookSignatures

open Foundation Foundation.Base64 Model
open TextWrap (isSpace strip ink)

abbrev Bytes := List UInt8

/-! ## Texts and their bytes -/

section Texts

/-- `str.encode`. -/
def encode (text : String) : Bytes := text.toByteArray.data.toList

/-- `bytes.decode`. -/
def decode (data : Bytes) : Option String := String.fromUTF8? ⟨data.toArray⟩

theorem decode_encode (text : String) : decode (encode text) = some text := by
  have hvalid : (⟨(encode text).toArray⟩ : ByteArray) = text.toByteArray := by
    simp [encode]
  rw [decode, hvalid, String.fromUTF8?, dif_pos text.isValidUTF8]
  rfl

theorem encode_of_decode {data : Bytes} {text : String} (h : decode data = some text) :
    encode text = data := by
  rw [decode, String.fromUTF8?] at h
  split_ifs at h with hvalid
  rw [← Option.some.inj h]
  simp [encode, String.fromUTF8]

theorem encode_injective {text text' : String} (h : encode text = encode text') :
    text = text' := by
  have hdecode := decode_encode text
  rw [h, decode_encode] at hdecode
  exact (Option.some.inj hdecode).symm

/-- The decimal digits of Unicode. -/
structure Decimals where
  value : Char → Option Nat
  others : ∀ c ∈ ['.', '\x7b', '_'], value c = none

variable (decimals : Decimals)

/-- The digits after the first one, which single underscores may part. -/
def restOfNumber : Nat → List Char → Option Nat
  | n, [] => some n
  | n, '_' :: c :: rest => (decimals.value c).bind fun d => restOfNumber (10 * n + d) rest
  | n, c :: rest => (decimals.value c).bind fun d => restOfNumber (10 * n + d) rest

/-- The digits that `int` reads at most. -/
def maxStrDigits : Nat := 4300

def numberOf : List Char → Option Nat
  | [] => none
  | c :: rest =>
    if maxStrDigits < ((c :: rest).filter (· ≠ '_')).length then none
    else (decimals.value c).bind fun d => restOfNumber decimals d rest

/-- `int` of a text. -/
def intOf (text : String) : Option Int :=
  match strip text.toList with
  | '-' :: rest => (numberOf decimals rest).map fun (n : Nat) => -(n : Int)
  | '+' :: rest => (numberOf decimals rest).map Int.ofNat
  | rest => (numberOf decimals rest).map Int.ofNat

end Texts

/-! ## The signer -/

section Signing

/-- `hmac.new(key, message, sha256).digest()`. -/
abbrev Mac := Bytes → Bytes → Bytes

/-- The key that a secret denotes. -/
def secretBytes (secret : String) : Except DecodeError Bytes :=
  if "whsec_".toList.isPrefixOf secret.toList then
    urlsafeB64decode (pad (secret.toList.drop 6))
  else .ok (encode secret)

/-- The three fields of a signature. -/
def signedPayload (msgId timestamp body : String) : String :=
  msgId ++ "." ++ timestamp ++ "." ++ body

structure WebhookService where
  secret : String

def WebhookService.signingSecret (self : WebhookService) (secret : Option String) : String :=
  match secret with
  | some secret => if secret = "" then self.secret else secret
  | none => self.secret

def signPayload (mac : Mac) (self : WebhookService) (payloadJson msgId : String)
    (timestamp : Nat) (secret : Option String) : Except DecodeError String :=
  let signed := signedPayload msgId (toString timestamp) payloadJson
  (secretBytes (self.signingSecret secret)).map fun key =>
    "v1," ++ String.ofList (b64encode (mac key (encode signed)))

/-- The digits of a UUID. -/
abbrev Uuid := { hex : List (Fin 16) // hex.length = 32 }

def msgIdOf (delivery : Uuid) : String :=
  "msg_" ++ String.ofList ((delivery.1.take 24).map fun d : Fin 16 => Nat.digitChar d)

/-- What is sent to an endpoint. -/
structure Request where
  body : Bytes
  webhookId : String
  webhookTimestamp : String
  webhookSignature : String

/-- The texts of JSON values. -/
structure JsonTexts where
  dumps : Json → String
  dumps_obj : ∀ fields, ∃ rest, (dumps (.obj fields)).toList = '\x7b' :: rest

/-- The request that `deliver` makes; every attempt sends the same. -/
def request (mac : Mac) (texts : JsonTexts) (self : WebhookService) (payload : Dict Json)
    (delivery : Uuid) (timestamp : Nat) (secret : Option String) : Except DecodeError Request :=
  let payloadJson := texts.dumps (.obj payload)
  (signPayload mac self payloadJson (msgIdOf delivery) timestamp secret).map fun signature =>
    ⟨encode payloadJson, msgIdOf delivery, toString timestamp, signature⟩

end Signing

/-! ## The verifier -/

section Verifying

/-- The exceptions of the verifier; the last one is no `WebhookVerificationError`. -/
inductive Rejection
  | timestampFormat
  | timestampTooOld
  | signatureFormat
  | signatureEncoding
  | secretEncoding
  | bodyEncoding

def verifyWebhookSignature (decimals : Decimals) (mac : Mac) (now : Int) (payload : Bytes)
    (signature msgId timestamp secret : String) (maxAge : Int) : Except Rejection Bool :=
  match intOf decimals timestamp with
  | none => .error .timestampFormat
  | some ts =>
    if maxAge < |now - ts| then .error .timestampTooOld
    else if !"v1,".toList.isPrefixOf signature.toList then .error .signatureFormat
    else match b64decode (signature.toList.drop 3) with
      | .error _ => .error .signatureEncoding
      | .ok provided =>
        match secretBytes secret with
        | .error _ => .error .secretEncoding
        | .ok key =>
          match decode payload with
          | none => .error .bodyEncoding
          | some body =>
            .ok (decide (mac key (encode (signedPayload msgId timestamp body)) = provided))

end Verifying

/-! ## Numbers as texts -/

section Numbers

variable {decimals : Decimals}

theorem not_mem_of_restOfNumber {n m : Nat} {cs : List Char} {c : Char}
    (hvalue : decimals.value c = none) (hc : c ≠ '_')
    (h : restOfNumber decimals n cs = some m) : c ∉ cs := by
  have hne : ∀ {c' v}, decimals.value c' = some v → c ≠ c' := by
    rintro c' v hv rfl
    exact absurd (hvalue.symm.trans hv) (by simp)
  fun_induction restOfNumber decimals n cs with
  | case1 n => exact List.not_mem_nil
  | case2 n c' rest ih =>
      obtain ⟨v, hv, hrest⟩ := Option.bind_eq_some_iff.mp h
      simp only [List.mem_cons, not_or]
      exact ⟨hc, hne hv, ih v hrest⟩
  | case3 n c' rest _ ih =>
      obtain ⟨v, hv, hrest⟩ := Option.bind_eq_some_iff.mp h
      simp only [List.mem_cons, not_or]
      exact ⟨hne hv, ih v hrest⟩

theorem not_mem_of_numberOf {m : Nat} {cs : List Char} {c : Char}
    (hvalue : decimals.value c = none) (hc : c ≠ '_')
    (h : numberOf decimals cs = some m) : c ∉ cs := by
  cases cs with
  | nil => exact List.not_mem_nil
  | cons c' rest =>
      rw [numberOf] at h
      split_ifs at h
      obtain ⟨v, hv, hrest⟩ := Option.bind_eq_some_iff.mp h
      rw [List.mem_cons, not_or]
      refine ⟨?_, not_mem_of_restOfNumber hvalue hc hrest⟩
      rintro rfl
      exact absurd (hvalue.symm.trans hv) (by simp)

/-- No number has a dot or a brace in its text, and none is empty. -/
theorem not_mem_of_intOf {text : String} {n : Int} (h : intOf decimals text = some n) :
    '.' ∉ text.toList ∧ '\x7b' ∉ text.toList ∧ text.toList ≠ [] := by
  have hnumber : ∃ sign cs m, strip text.toList = sign ++ cs ∧ (sign = [] ∨ sign = ['-'] ∨
      sign = ['+']) ∧ numberOf decimals cs = some m := by
    rw [intOf] at h
    split at h
    · rename_i rest heq
      obtain ⟨m, hm, -⟩ := Option.map_eq_some_iff.mp h
      exact ⟨['-'], rest, m, heq, by simp, hm⟩
    · rename_i rest heq
      obtain ⟨m, hm, -⟩ := Option.map_eq_some_iff.mp h
      exact ⟨['+'], rest, m, heq, by simp, hm⟩
    · obtain ⟨m, hm, -⟩ := Option.map_eq_some_iff.mp h
      exact ⟨[], _, m, rfl, by simp, hm⟩
  obtain ⟨sign, cs, m, hstrip, hsign, hm⟩ := hnumber
  have hnot : ∀ c, isSpace c = false → decimals.value c = none → c ∉ ['_', '-', '+'] →
      c ∉ text.toList := by
    intro c hspace hvalue hother hmem
    have hink : c ∈ ink (strip text.toList) := by
      rw [TextWrap.ink_strip, ink, List.mem_filter]
      exact ⟨hmem, by simp [hspace]⟩
    have hmem' : c ∈ sign ++ cs := hstrip ▸ (List.mem_filter.mp hink).1
    simp only [List.mem_cons, List.not_mem_nil, or_false, not_or] at hother
    rcases List.mem_append.mp hmem' with hin | hin
    · rcases hsign with rfl | rfl | rfl
      · cases hin
      · exact hother.2.1 (List.mem_singleton.mp hin)
      · exact hother.2.2 (List.mem_singleton.mp hin)
    · exact not_mem_of_numberOf hvalue hother.1 hm hin
  refine ⟨hnot '.' (by decide) (decimals.others _ (by decide)) (by decide),
    hnot '\x7b' (by decide) (decimals.others _ (by decide)) (by decide), ?_⟩
  intro hnil
  have hempty : sign ++ cs = [] := by
    rw [← hstrip, hnil]
    rfl
  rw [(List.append_eq_nil_iff.mp hempty).2] at hm
  cases hm

end Numbers

/-! ## What the verifier accepts -/

section Accepted

/-- Two texts that are cut at a dot, the one at its first. -/
theorem append_dot_eq {a a' x x' : List Char} (ha : '.' ∉ a)
    (h : a ++ '.' :: x = a' ++ '.' :: x') :
    (a' = a ∧ x' = x) ∨ ∃ t, a' = a ++ '.' :: t ∧ x = t ++ '.' :: x' := by
  rcases List.append_eq_append_iff.mp h with ⟨c, ha', hx⟩ | ⟨c, ha', hx⟩
  · cases c with
    | nil =>
        rw [List.append_nil] at ha'
        exact .inl ⟨ha', (List.cons.inj hx).2.symm⟩
    | cons d t =>
        obtain ⟨rfl, ht⟩ := List.cons.inj hx
        exact .inr ⟨t, ha', ht⟩
  · cases c with
    | nil =>
        rw [List.append_nil] at ha'
        exact .inl ⟨ha'.symm, (List.cons.inj hx).2⟩
    | cons d t =>
        obtain ⟨rfl, -⟩ := List.cons.inj hx
        exact absurd (ha' ▸ List.mem_append_right a' List.mem_cons_self) ha

/-- The fields of another request with the same text to sign: a part of the body has become a
part of the id. -/
def Shifted (msgId timestamp body msgId' timestamp' body' : String) : Prop :=
  ∃ front : String, msgId' = msgId ++ "." ++ timestamp ++ "." ++ front ∧
    body = front ++ "." ++ timestamp' ++ "." ++ body'

theorem toList_signedPayload (msgId timestamp body : String) :
    (signedPayload msgId timestamp body).toList =
      msgId.toList ++ '.' :: (timestamp.toList ++ '.' :: body.toList) := by
  simp [signedPayload]

/-- Two requests have the same text to sign exactly if they are the same or the one is shifted. -/
theorem signedPayload_eq_iff {msgId timestamp body msgId' timestamp' body' : String}
    (hid : '.' ∉ msgId.toList) (htime : '.' ∉ timestamp.toList)
    (htime' : '.' ∉ timestamp'.toList ∧ '\x7b' ∉ timestamp'.toList ∧ timestamp'.toList ≠ [])
    (hbody : ∃ rest, body.toList = '\x7b' :: rest) :
    signedPayload msgId' timestamp' body' = signedPayload msgId timestamp body ↔
      (msgId' = msgId ∧ timestamp' = timestamp ∧ body' = body) ∨
        Shifted msgId timestamp body msgId' timestamp' body' := by
  constructor
  · intro h
    have hlist := congrArg String.toList h.symm
    rw [toList_signedPayload, toList_signedPayload] at hlist
    rcases append_dot_eq hid hlist with ⟨hsame, hrest⟩ | ⟨t, hlonger, hrest⟩
    · rcases append_dot_eq htime hrest.symm with ⟨htimes, hbodies⟩ | ⟨t, htimes, -⟩
      · exact .inl ⟨String.toList_injective hsame, String.toList_injective htimes,
          String.toList_injective hbodies⟩
      · exact absurd (htimes ▸ List.mem_append_right _ List.mem_cons_self) htime'.1
    · rcases append_dot_eq htime hrest with ⟨htimes, hbodies⟩ | ⟨front, htimes, hbodies⟩
      · -- the body would begin with the other time
        obtain ⟨rest, hbrace⟩ := hbody
        rw [hbrace] at hbodies
        cases hdigits : timestamp'.toList with
        | nil => exact absurd hdigits htime'.2.2
        | cons c cs =>
            rw [hdigits, List.cons_append] at hbodies
            rw [hdigits] at htime'
            exact absurd ((List.cons.inj hbodies).1 ▸ List.mem_cons_self) htime'.2.1
      · refine .inr ⟨String.ofList front, ?_, ?_⟩
        · exact String.toList_injective (by simp [hlonger, htimes])
        · exact String.toList_injective (by simp [hbodies])
  · rintro (⟨rfl, rfl, rfl⟩ | ⟨front, rfl, rfl⟩)
    · rfl
    · exact String.toList_injective (by simp [signedPayload])

theorem dot_not_mem_msgIdOf (delivery : Uuid) : '.' ∉ (msgIdOf delivery).toList := by
  have hdigit : ∀ d : Fin 16, Nat.digitChar d ≠ '.' := by decide
  simp [msgIdOf, -List.map_take, hdigit]

theorem dot_not_mem_toString (timestamp : Nat) : '.' ∉ (toString timestamp).toList := by
  rw [Nat.toString_eq_repr, Nat.toList_repr]
  intro hdot
  exact absurd (Nat.isDigit_of_mem_toDigits (by decide) (by decide) hdot) (by decide)

variable {decimals : Decimals} {mac : Mac} {texts : JsonTexts} {self : WebhookService}
variable {payload : Dict Json} {delivery : Uuid} {timestamp : Nat} {secret : Option String}
variable {req : Request}

/-- A request that could be signed, with its key. -/
theorem request_eq_ok
    (h : request mac texts self payload delivery timestamp secret = .ok req) :
    ∃ key, secretBytes (self.signingSecret secret) = .ok key ∧
      req.body = encode (texts.dumps (.obj payload)) ∧ req.webhookId = msgIdOf delivery ∧
      req.webhookTimestamp = toString timestamp ∧
      req.webhookSignature = "v1," ++ String.ofList (b64encode (mac key (encode (signedPayload
        (msgIdOf delivery) (toString timestamp) (texts.dumps (.obj payload)))))) := by
  rw [request, signPayload] at h
  cases hkey : secretBytes (self.signingSecret secret) with
  | error e =>
      rw [hkey] at h
      cases h
  | ok key =>
      rw [hkey] at h
      obtain rfl := Except.ok.inj h
      exact ⟨key, rfl, rfl, rfl, rfl, rfl⟩

/-- The verifier's answer to any fields with the signature of some bytes. -/
theorem verify_eq_ok_iff (signature : Bytes) (now : Int) (body : Bytes)
    (msgId timestamp secret : String) (maxAge : Int) :
    verifyWebhookSignature decimals mac now body ("v1," ++ String.ofList (b64encode signature))
        msgId timestamp secret maxAge = .ok true ↔
      (∃ ts, intOf decimals timestamp = some ts ∧ |now - ts| ≤ maxAge) ∧
      ∃ key text, secretBytes secret = .ok key ∧ decode body = some text ∧
        mac key (encode (signedPayload msgId timestamp text)) = signature := by
  have hformat : "v1,".toList.isPrefixOf
      ("v1," ++ String.ofList (b64encode signature)).toList = true := by
    simp
  have hdecode : b64decode (("v1," ++ String.ofList (b64encode signature)).toList.drop 3) =
      .ok signature := by
    rw [String.toList_append, List.drop_left' (by rfl), String.toList_ofList,
      b64decode_b64encode]
  rw [verifyWebhookSignature]
  cases htime : intOf decimals timestamp with
  | none => simp
  | some ts =>
      by_cases hfresh : |now - ts| ≤ maxAge
      · simp only [if_neg (not_lt.mpr hfresh), hformat, hdecode]
        cases secretBytes secret with
        | error e => simp
        | ok key =>
            cases decode body with
            | none => simp
            | some text => simp [hfresh]
      · simp [if_pos (not_le.mp hfresh), hfresh]

/-- Two inputs that the hash does not tell apart. -/
def Collide (mac : Mac) (key message key' message' : Bytes) : Prop :=
  (key, message) ≠ (key', message') ∧ mac key message = mac key' message'

/-- Exactly these requests are accepted with the signature of a request that was sent: their
time is fresh, and they are that request or a shifted one under the same key, or the hash does not
tell the two apart. -/
theorem verify_request_iff
    (hsent : request mac texts self payload delivery timestamp secret = .ok req)
    (now : Int) (body' : Bytes) (msgId' timestamp' secret' : String) (maxAge : Int) :
    let body := texts.dumps (.obj payload)
    verifyWebhookSignature decimals mac now body' req.webhookSignature msgId' timestamp' secret'
        maxAge = .ok true ↔
      (∃ ts, intOf decimals timestamp' = some ts ∧ |now - ts| ≤ maxAge) ∧
      ∃ key key' text', secretBytes (self.signingSecret secret) = .ok key ∧
        secretBytes secret' = .ok key' ∧ decode body' = some text' ∧
        (key' = key ∧
            ((msgId' = req.webhookId ∧ timestamp' = req.webhookTimestamp ∧ body' = req.body) ∨
              Shifted req.webhookId req.webhookTimestamp body msgId' timestamp' text') ∨
          Collide mac key' (encode (signedPayload msgId' timestamp' text')) key
            (encode (signedPayload req.webhookId req.webhookTimestamp body))) := by
  intro body
  obtain ⟨key, hkey, hbody, hid, htime, hsignature⟩ := request_eq_ok hsent
  rw [hsignature, verify_eq_ok_iff, hbody, hid, htime]
  refine and_congr_right fun hfresh => ?_
  obtain ⟨ts, hts, -⟩ := hfresh
  have hsame : ∀ {text'}, decode body' = some text' →
      (signedPayload msgId' timestamp' text' =
          signedPayload (msgIdOf delivery) (toString timestamp) body ↔
        (msgId' = msgIdOf delivery ∧ timestamp' = toString timestamp ∧ body' = encode body) ∨
          Shifted (msgIdOf delivery) (toString timestamp) body msgId' timestamp' text') := by
    intro text' htext
    rw [signedPayload_eq_iff (dot_not_mem_msgIdOf delivery) (dot_not_mem_toString timestamp)
      (not_mem_of_intOf hts) (texts.dumps_obj payload)]
    have hbytes : text' = body ↔ body' = encode body := by
      constructor
      · rintro rfl
        exact (encode_of_decode htext).symm
      · rintro rfl
        exact (Option.some.inj ((decode_encode body).symm.trans htext)).symm
    rw [hbytes]
  constructor
  · rintro ⟨key', text', hkey', htext, hmac⟩
    refine ⟨key, key', text', hkey, hkey', htext, ?_⟩
    by_cases heq : key' = key ∧ signedPayload msgId' timestamp' text' =
        signedPayload (msgIdOf delivery) (toString timestamp) body
    · exact .inl ⟨heq.1, (hsame htext).mp heq.2⟩
    · refine .inr ⟨fun hpair => heq ?_, hmac⟩
      obtain ⟨hkeys, hmessages⟩ := Prod.mk.inj hpair
      exact ⟨hkeys, encode_injective hmessages⟩
  · rintro ⟨key₁, key', text', hkey₁, hkey', htext, hcase⟩
    obtain rfl : key = key₁ := Except.ok.inj (hkey.symm.trans hkey₁)
    refine ⟨key', text', hkey', htext, ?_⟩
    rcases hcase with ⟨rfl, hfields⟩ | hcollide
    · rw [(hsame htext).mpr hfields]
    · exact hcollide.2

end Accepted

/-! ## A request -/

section Sample

def asciiDecimals : Decimals where
  value c := if c.isDigit then some (c.toNat - 48) else none
  others := by
    refine List.forall_mem_cons.mpr ⟨rfl, List.forall_mem_cons.mpr ⟨rfl, ?_⟩⟩
    exact List.forall_mem_singleton.mpr rfl

/-- A hash for short messages. -/
def plainMac : Mac := fun key message => key ++ message

def samplePayload : Dict Json :=
  [("object", .str "event"), ("type", .str "transcription.failed")]

/-- The text of the payload. -/
def sampleText : String := "\x7b\"object\": \"event\", \"type\": \"transcription.failed\"\x7d"

def sampleTexts : JsonTexts where
  dumps _ := sampleText
  dumps_obj _ := ⟨sampleText.toList.tail, by decide +kernel⟩

def sampleDelivery : Uuid := ⟨List.replicate 32 10, rfl⟩

def sampleService : WebhookService := ⟨"whsec_AQID"⟩

/-- The request for the sample payload. -/
def sampleRequest : Request where
  body := encode sampleText
  webhookId := msgIdOf sampleDelivery
  webhookTimestamp := toString 1700000003
  webhookSignature := "v1," ++ String.ofList (b64encode (plainMac [1, 2, 3] (encode
    (signedPayload (msgIdOf sampleDelivery) (toString 1700000003) sampleText))))

theorem request_sample : request plainMac sampleTexts sampleService samplePayload sampleDelivery
    1700000003 none = .ok sampleRequest := by
  have hkey : secretBytes (sampleService.signingSecret none) = .ok [1, 2, 3] := by decide +kernel
  rw [request, signPayload, hkey]
  rfl

/-- The same request an hour later. -/
theorem verify_request_iff_sample :
    verifyWebhookSignature asciiDecimals plainMac 1700003603 sampleRequest.body
      sampleRequest.webhookSignature sampleRequest.webhookId sampleRequest.webhookTimestamp
      "whsec_AQID" 300 ≠ .ok true := by
  intro haccepted
  obtain ⟨⟨ts, hts, hfresh⟩, -⟩ := (verify_request_iff request_sample
    1700003603 sampleRequest.body sampleRequest.webhookId sampleRequest.webhookTimestamp
    "whsec_AQID" 300).mp haccepted
  have htime : intOf asciiDecimals sampleRequest.webhookTimestamp = some 1700000003 := by
    decide +kernel
  obtain rfl := Option.some.inj (htime.symm.trans hts)
  exact absurd hfresh (by decide)

end Sample

end Dalston.Gateway.WebhookSignatures
