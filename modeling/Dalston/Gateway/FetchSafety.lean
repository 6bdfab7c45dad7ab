import Dalston.Gateway.AudioUrl

/-!
# Requests to internal addresses

The check of a submitted URL looks at one answer of the resolver, and the client
goes by others: its own lookup of the host, and the lookups of the hosts that
redirects name. So a download keeps to addresses that passed the check exactly
when the later lookups lead to addresses of the first answer.
-/

namespace Dalston.Gateway.AudioUrl

open Model.TextWrap (Text)

variable {R : Type} {lib : TextLib} {client : HttpClient R} {net : Internet R}

/-- Every request goes to an address that passed the check, and so to no internal one. -/
def FetchSafe (fetch : Fetch R) : Prop :=
  ∀ request ∈ fetch.requests, request.address ∈ fetch.passed ∧ request.address.internal = false

/-- The redirects lead from the request with one number and URL to another. -/
inductive Leads (client : HttpClient R) (net : Internet R) : Nat → Text → Nat → Text → Prop
  | here (number : Nat) (url : Text) : Leads client net number url number url
  | redirect {number number' : Nat} {url next url' : Text} {request : Request} {response : R}
      (hconnect : connect client net number url = some request)
      (hrespond : net.respond number = some response)
      (hredirect : client.redirect url response = some next)
      (hrest : Leads client net (number + 1) next number' url') :
      Leads client net number url number' url'

/-- The lookup of the check is answered with the address, for the host of the URL. -/
def Answered (lib : TextLib) (net : Internet R) (url : Text) (address : IpAddress) : Prop :=
  ∃ parsed hostname addresses, urlparse lib url = some parsed ∧
    parsed.hostname lib = some hostname ∧ net.resolve 0 hostname = some addresses ∧
    address ∈ addresses

/-- Of an accepted URL, whatever the redirects name, up to the last that is followed, the lookups
of the client lead to addresses that the lookup of the check was answered with. -/
def Steadfast (lib : TextLib) (client : HttpClient R) (net : Internet R) (url : Text) : Prop :=
  ∀ normalized passed, normalizeUrl lib url = .ok normalized →
    checkUrl lib net normalized = .ok passed →
    ∀ number url' request, Leads client net 0 normalized number url' → number ≤ MAX_REDIRECTS →
      connect client net number url' = some request → Answered lib net normalized request.address

section Requests

variable {redirects number number' : Nat} {url url' : Text} {request : Request}

theorem Leads.le (h : Leads client net number url number' url') : number ≤ number' := by
  induction h with
  | here => exact le_rfl
  | redirect _ _ _ _ ih => omega

/-- The redirect that the client follows after its request. -/
def Redirects (client : HttpClient R) (net : Internet R) (number : Nat) (url next : Text) : Prop :=
  ∃ request response, connect client net number url = some request ∧
    net.respond number = some response ∧ client.redirect url response = some next

theorem leads_iff : Leads client net number url number' url' ↔
    number' = number ∧ url' = url ∨
      ∃ next, Redirects client net number url next ∧
        Leads client net (number + 1) next number' url' := by
  constructor
  · intro h
    cases h with
    | here => exact Or.inl ⟨rfl, rfl⟩
    | redirect hconnect hrespond hredirect hrest =>
        exact Or.inr ⟨_, ⟨_, _, hconnect, hrespond, hredirect⟩, hrest⟩
  · rintro (⟨rfl, rfl⟩ | ⟨next, ⟨_, _, hconnect, hrespond, hredirect⟩, hrest⟩)
    · exact .here _ _
    · exact .redirect hconnect hrespond hredirect hrest

/-- The client makes the request of its URL, and those that follow a redirect. -/
theorem mem_send_zero : request ∈ (send client net 0 number url).1 ↔
    connect client net number url = some request := by
  unfold send
  cases hconnect : connect client net number url with
  | none => simp
  | some first =>
      cases hrespond : net.respond number with
      | none => simp [eq_comm]
      | some response =>
          cases hredirect : client.redirect url response with
          | none => simp [hredirect, eq_comm]
          | some next => simp [hredirect, eq_comm]

theorem mem_send_succ : request ∈ (send client net (redirects + 1) number url).1 ↔
    connect client net number url = some request ∨
      ∃ next, Redirects client net number url next ∧
        request ∈ (send client net redirects (number + 1) next).1 := by
  unfold Redirects
  rw [send]
  cases hconnect : connect client net number url with
  | none => simp
  | some first =>
      cases hrespond : net.respond number with
      | none => simp [eq_comm]
      | some response =>
          cases hredirect : client.redirect url response with
          | none => simp [hredirect, eq_comm]
          | some next => simp [hredirect, eq_comm]

/-- The requests of the client are those that its redirects lead to. -/
theorem mem_send : request ∈ (send client net redirects number url).1 ↔
    ∃ number' url', Leads client net number url number' url' ∧ number' ≤ number + redirects ∧
      connect client net number' url' = some request := by
  induction redirects generalizing number url with
  | zero =>
      rw [mem_send_zero]
      constructor
      · intro hconnect
        exact ⟨number, url, .here number url, le_rfl, hconnect⟩
      · rintro ⟨number', url', hleads, hle, hconnect⟩
        obtain ⟨rfl, rfl⟩ | ⟨next, -, hrest⟩ := leads_iff.mp hleads
        · exact hconnect
        · have := hrest.le
          omega
  | succ redirects ih =>
      rw [mem_send_succ]
      constructor
      · rintro (hconnect | ⟨next, hnext, hmem⟩)
        · exact ⟨number, url, .here number url, by omega, hconnect⟩
        · obtain ⟨number', url', hleads, hle, hconnect⟩ := ih.mp hmem
          exact ⟨number', url', leads_iff.mpr (Or.inr ⟨next, hnext, hleads⟩), by omega, hconnect⟩
      · rintro ⟨number', url', hleads, hle, hconnect⟩
        obtain ⟨rfl, rfl⟩ | ⟨next, hnext, hrest⟩ := leads_iff.mp hleads
        · exact Or.inl hconnect
        · exact Or.inr ⟨next, hnext, ih.mpr ⟨number', url', hrest, by omega, hconnect⟩⟩

end Requests

section Check

variable {url : Text} {passed : List IpAddress} {address : IpAddress}

/-- What passes are the addresses of the first answer, none of them internal. -/
theorem mem_passed_iff (h : checkUrl lib net url = .ok passed) :
    address ∈ passed ↔ Answered lib net url address := by
  unfold checkUrl at h
  unfold Answered
  cases hparse : urlparse lib url with
  | none => simp [hparse] at h
  | some parsed =>
      cases hhost : parsed.hostname lib with
      | none =>
          simp only [hparse, hhost] at h
          cases h
          simp [hhost]
      | some hostname =>
          simp only [hparse, hhost] at h
          cases hanswer : net.resolve 0 hostname with
          | none =>
              rw [hanswer] at h
              cases h
              simp [hhost, hanswer]
          | some addresses =>
              rw [hanswer, checkSsrf] at h
              split at h
              · cases h
              · cases h
                simp [hhost, hanswer]

theorem not_internal_of_passed (h : checkUrl lib net url = .ok passed) (hmem : address ∈ passed) :
    address.internal = false := by
  unfold checkUrl at h
  split at h
  · cases h
  · split at h
    · cases h
      cases hmem
    · unfold checkSsrf at h
      split at h
      · cases h
        cases hmem
      · split at h
        · cases h
        · next hnone =>
          cases h
          simpa using fun hinternal => hnone (List.any_eq_true.mpr ⟨address, hmem, hinternal⟩)

end Check

section Downloads

variable {url normalized : Text} {passed : List IpAddress} {e : FetchError}

theorem download_invalid (h : normalizeUrl lib url = .error e) :
    downloadAudioFromUrl lib client net url = ⟨[], [], .error e⟩ := by
  simp [downloadAudioFromUrl, h]

theorem download_refused (h : normalizeUrl lib url = .ok normalized)
    (hcheck : checkUrl lib net normalized = .error e) :
    downloadAudioFromUrl lib client net url = ⟨[], [], .error e⟩ := by
  simp [downloadAudioFromUrl, h, hcheck]

theorem download_accepted (h : normalizeUrl lib url = .ok normalized)
    (hcheck : checkUrl lib net normalized = .ok passed) :
    downloadAudioFromUrl lib client net url =
      ⟨passed, (send client net MAX_REDIRECTS 0 normalized).1,
        (send client net MAX_REDIRECTS 0 normalized).2⟩ := by
  simp [downloadAudioFromUrl, h, hcheck]

theorem fetchSafe_nothing : FetchSafe (⟨[], [], .error e⟩ : Fetch R) := by
  intro request hmem
  cases hmem

end Downloads

/-- A download keeps to addresses that passed the check exactly when the lookups of the client
lead to no others. -/
theorem fetchSafe_iff (url : Text) :
    FetchSafe (downloadAudioFromUrl lib client net url) ↔ Steadfast lib client net url := by
  cases hnormalize : normalizeUrl lib url with
  | error e =>
      rw [download_invalid hnormalize]
      refine iff_of_true fetchSafe_nothing ?_
      intro normalized passed hok
      rw [hnormalize] at hok
      cases hok
  | ok normalized =>
      cases hcheck : checkUrl lib net normalized with
      | error e =>
          rw [download_refused hnormalize hcheck]
          refine iff_of_true fetchSafe_nothing ?_
          intro normalized' passed hok hpassed
          obtain rfl := Except.ok.inj (hnormalize.symm.trans hok)
          rw [hcheck] at hpassed
          cases hpassed
      | ok passed =>
          rw [download_accepted hnormalize hcheck]
          constructor
          · intro hsafe normalized' passed' hok hpassed number url' request hleads hle hconnect
            obtain rfl := Except.ok.inj (hnormalize.symm.trans hok)
            have hsent : request ∈ (send client net MAX_REDIRECTS 0 normalized).1 :=
              mem_send.mpr ⟨number, url', hleads, by omega, hconnect⟩
            exact (mem_passed_iff hcheck).mp (hsafe request hsent).1
          · intro hsteady request hsent
            obtain ⟨number, url', hleads, hle, hconnect⟩ := mem_send.mp hsent
            have hanswered := hsteady normalized passed hnormalize hcheck number url' request hleads
              (by omega) hconnect
            have hpassed := (mem_passed_iff hcheck).mpr hanswered
            exact ⟨hpassed, not_internal_of_passed hcheck hpassed⟩

section Samples

/-- A client whose responses are the locations they redirect to. -/
def sampleClient : HttpClient Text where
  host url := if url = "https://a.example/x".toList then some "a.example".toList
    else some "169.254.169.254".toList
  redirect _ response := if response = [] then none else some response

/-- The host of the submitted URL is a public one, which redirects to a link-local address. -/
def sampleInternet : Internet Text where
  resolve _ host :=
    if host = "a.example".toList then some [.v4 (BitVec.ofNat 32 0x5db8d822)]
    else some [.v4 (BitVec.ofNat 32 0xa9fea9fe)]
  choose _ := 0
  respond number := if number = 0 then some "http://169.254.169.254/latest/".toList else some []

def asciiLib : TextLib := ⟨List.map Char.toLower, id, fun _ => true⟩

end Samples

theorem redirected_inside :
    ¬∀ (R : Type) (lib : TextLib) (client : HttpClient R) (net : Internet R) (url : Text),
      FetchSafe (downloadAudioFromUrl lib client net url) := by
  intro hclaim
  have hsafe := hclaim Text asciiLib sampleClient sampleInternet "https://a.example/x".toList
  have hrequests : ((downloadAudioFromUrl asciiLib sampleClient sampleInternet
      "https://a.example/x".toList).requests.map (·.address.internal)) = [false, true] := by
    decide +kernel
  have hinternal : true ∈ (downloadAudioFromUrl asciiLib sampleClient sampleInternet
      "https://a.example/x".toList).requests.map (·.address.internal) := by
    rw [hrequests]
    decide
  obtain ⟨request, hmem, htrue⟩ := List.mem_map.mp hinternal
  rw [(hsafe request hmem).2] at htrue
  cases htrue

end Dalston.Gateway.AudioUrl
