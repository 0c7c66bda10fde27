/-
Which origins are granted.

A configured origin comes to an allowed value or to a warning, and which of
the two is a matter of the origin alone (`judge_eq`), so the allowed values
and the warnings are two filters of the configured list, each in its order
(`judgeAll_eq`). The wildcard is on the wrong side of the first filter under
any blanks, and no other text has its bytes, so it is never among the allowed
values (`wildcard_not_mem_allowed`), which is what a list of origins may not
hold (`originList?`).

In a reply only the cross-origin rules name an origin, whatever answers inside
and whether anything does (`named_allowOrigin`), and the rules are those of the
start (`run_rules`).

Chain (service): Http/Layers.lean below.
-/
import Mathlib
import Turnstile.Proofs.Http.Layers

namespace Turnstile.Http

open Header (named named_append)

/-- A text is told by its bytes. -/
theorem bytesOf_injective : Function.Injective bytesOf := by
  intro text other hsame
  unfold bytesOf at hsame
  have hdata : text.toUTF8 = other.toUTF8 :=
    ByteArray.ext (Array.toList_inj.mp hsame)
  exact String.toByteArray_inj.mp hdata

namespace CrossOrigin

-- ================================================================ the filters

/-- The configured origin is not the wildcard and can be the value of a header
field. -/
def isGrantable (origin : String) : Bool :=
  Text.trim origin.toList != ['*'] && (bytesOf origin).all isValueByte

/-- What is reported about a configured origin that is skipped. -/
def warningAbout (origin : String) : Event :=
  if Text.trim origin.toList = ['*'] then .wildcardOriginSkipped
  else .invalidOriginSkipped origin

/-- The names of the fields that do not come with every reply. -/
def otherNames : List String :=
  Reply.ownNames ++ Reply.preflightNames
    ++ ["x-request-id", "access-control-expose-headers"]

/-- A list of origins from which the one of a request is echoed; it cannot be
made of a list with the wildcard. -/
def originList? (values : List Bytes) : Option (Request → Option Bytes) :=
  if bytesOf "*" ∈ values then none
  else some fun request =>
    (Header.first? "origin" request.headers).filter values.contains

theorem judge_eq (origin : String) :
    judge origin = if isGrantable origin then .ok (bytesOf origin)
      else .error (warningAbout origin) := by
  unfold judge isGrantable warningAbout valueOf?
  by_cases hwildcard : Text.trim origin.toList = ['*']
  · simp [hwildcard]
  · by_cases hlegal : (bytesOf origin).all isValueByte = true
    · simp [hwildcard, hlegal]
    · simp [hwildcard, hlegal]

/-- Values and warnings are two filters of the configured list. -/
theorem judgeAll_eq (origins : List String) :
    judgeAll origins = ((origins.filter isGrantable).map bytesOf,
      (origins.filter fun origin => !isGrantable origin).map warningAbout) := by
  induction origins with
  | nil => rfl
  | cons origin rest ih =>
      rw [judgeAll, ih, judge_eq]
      cases hgrantable : isGrantable origin with
      | true => simp [hgrantable]
      | false => simp [hgrantable]

theorem ofSettings_allowed (settings : Settings.CrossOrigin) :
    (ofSettings settings).1.allowed
      = (settings.allowedOrigins.filter isGrantable).map bytesOf := by
  simp only [ofSettings, judgeAll_eq]

theorem ofSettings_warnings (settings : Settings.CrossOrigin) :
    (ofSettings settings).2
      = (settings.allowedOrigins.filter fun origin => !isGrantable origin).map
          warningAbout := by
  simp only [ofSettings, judgeAll_eq]

theorem wildcard_not_grantable : isGrantable "*" = false := by
  decide +kernel

theorem wildcard_not_mem_allowed (settings : Settings.CrossOrigin) :
    bytesOf "*" ∉ (ofSettings settings).1.allowed := by
  rw [ofSettings_allowed]
  intro hmem
  obtain ⟨origin, hkept, hbytes⟩ := List.mem_map.mp hmem
  have hwildcard : origin = "*" := bytesOf_injective hbytes
  rw [hwildcard] at hkept
  have hgrantable := (List.mem_filter.mp hkept).2
  rw [wildcard_not_grantable] at hgrantable
  cases hgrantable

-- ============================================================ what is granted

/-- The allowed origin of a request is a configured one that can be granted. -/
theorem allowedOrigin?_eq_some_iff (settings : Settings.CrossOrigin) (request : Request)
    (value : Bytes) :
    (ofSettings settings).1.allowedOrigin? request = some value
      ↔ ∃ origin ∈ settings.allowedOrigins, isGrantable origin = true
        ∧ bytesOf origin = value
        ∧ Header.first? "origin" request.headers = some value := by
  rw [allowedOrigin?, Option.filter_eq_some_iff, List.contains_iff_mem,
    ofSettings_allowed, List.mem_map]
  constructor
  · rintro ⟨hasked, origin, hkept, hbytes⟩
    obtain ⟨hmem, hgrantable⟩ := List.mem_filter.mp hkept
    exact ⟨origin, hmem, hgrantable, hbytes, hasked⟩
  · rintro ⟨origin, hmem, hgrantable, hbytes, hasked⟩
    exact ⟨hasked, origin, List.mem_filter.mpr ⟨hmem, hgrantable⟩, hbytes⟩

/-- Nor is the wildcard ever the allowed origin. -/
theorem allowedOrigin?_ne_wildcard (settings : Settings.CrossOrigin)
    (request : Request) :
    (ofSettings settings).1.allowedOrigin? request ≠ some (bytesOf "*") := by
  intro hwildcard
  obtain ⟨-, hallowed⟩ := Option.filter_eq_some_iff.mp hwildcard
  exact wildcard_not_mem_allowed settings (List.contains_iff_mem.mp hallowed)

/-- Nothing but an allowed origin is named. -/
theorem named_allowOrigin (rules : CrossOrigin) (request : Request) :
    named "access-control-allow-origin" (rules.commonHeaders request)
      = ((rules.allowedOrigin? request).map fun origin =>
          Header.mk "access-control-allow-origin" origin).toList := by
  have hfixed : named "access-control-allow-origin"
      [.ofText "vary"
        "origin, access-control-request-method, access-control-request-headers",
        .ofText "access-control-allow-credentials" "true"] = [] := by
    simp [named, Header.lowered, Header.ofText, Char.toLower]
  unfold commonHeaders
  rw [named_append, hfixed, List.nil_append]
  cases rules.allowedOrigin? request with
  | none => rfl
  | some origin => exact Header.named_singleton _ _

/-- Credentials are allowed whether an origin is named or not. -/
theorem named_credentials (rules : CrossOrigin) (request : Request) :
    named "access-control-allow-credentials" (rules.commonHeaders request)
      = [.ofText "access-control-allow-credentials" "true"] := by
  have hfixed : named "access-control-allow-credentials"
      [.ofText "vary"
        "origin, access-control-request-method, access-control-request-headers",
        .ofText "access-control-allow-credentials" "true"]
      = [.ofText "access-control-allow-credentials" "true"] := by
    simp [named, Header.lowered, Header.ofText, Char.toLower]
  have hother : Header.lowered "access-control-allow-origin"
      ≠ Header.lowered "access-control-allow-credentials" := by
    simp [Header.lowered, Char.toLower]
  unfold commonHeaders
  rw [named_append, hfixed]
  cases rules.allowedOrigin? request <;> simp [named, hother]

end CrossOrigin

namespace Router

open CrossOrigin Reply

variable {router : Router} {fresh name : String} {request : Request}

/-- The fields of every reply are the cross-origin rules' own, whatever is
answered inside. -/
theorem named_of_mem_commonNames (hname : name ∈ commonNames) :
    named name (router.handle fresh request).1.headers
      = named name (router.rules.commonHeaders request) := by
  have hdistinct : ∀ common ∈ commonNames, ∀ own ∈ otherNames,
      Header.lowered own ≠ Header.lowered common := by
    simp [commonNames, otherNames, ownNames, preflightNames, Header.lowered,
      Char.toLower]
  have hother := hdistinct name hname
  by_cases hpreflight : request.method = "OPTIONS"
  · have hinner : named name (preflight router.rules request).headers = [] :=
      ((among_preflight _ _).mono (by simp [otherNames])).named_eq_nil hother
    rw [handle_of_preflight hpreflight, named_append, hinner, List.nil_append]
  · have hinner : named name (answer router.limiter request).1.headers = [] :=
      ((among_answer _ _).mono (by simp [otherNames])).named_eq_nil hother
    have hid : named name [⟨"x-request-id", requestId fresh request⟩] = [] :=
      ((Header.among_singleton _ _).mono (by simp [otherNames])).named_eq_nil hother
    have hexposed : named name [exposed] = [] :=
      ((Header.among_singleton _ _).mono (by simp [otherNames])).named_eq_nil hother
    rw [handle_of_logged hpreflight]
    simp only [named_append, hinner, hid, hexposed, List.nil_append, List.append_nil]

/-- At any time of a service its replies name the allowed origin by the rules
of the settings, if there is one. -/
theorem named_allowOrigin_run (limits : Settings.RateLimit)
    (settings : Settings.CrossOrigin) (actions : List Action) (fresh : String)
    (request : Request) :
    named "access-control-allow-origin"
        ((((start limits settings).1.run actions).2.1.handle fresh request).1).headers
      = (((ofSettings settings).1.allowedOrigin? request).map fun origin =>
          Header.mk "access-control-allow-origin" origin).toList := by
  have hrules : ((start limits settings).1.run actions).2.1.rules
      = (ofSettings settings).1 := run_rules _ actions
  rw [named_of_mem_commonNames (by simp [commonNames]), hrules, named_allowOrigin]

/-- Whatever list of origins is configured, the list of those that are left is
one that can be made. A reply of the service, at any time and to any request,
names an origin exactly if the first origin of the request is one that is
configured, and is neither the wildcard nor unfit for a field; then it names
this one alone. It never names the wildcard, and credentials are allowed. The
start warns about each origin that is left out, in their order, and reports
nothing else but what the limiter does. -/
theorem grants_configured (limits : Settings.RateLimit) (settings : Settings.CrossOrigin)
    (actions : List Action) (fresh : String) (request : Request) :
    let started := start limits settings
    let router := (started.1.run actions).2.1
    let reply := (router.handle fresh request).1
    let granted := named "access-control-allow-origin" reply.headers
    let asked := Header.first? "origin" request.headers
    originList? started.1.rules.allowed = some router.rules.allowedOrigin?
      ∧ (granted ≠ [] ↔ ∃ origin ∈ settings.allowedOrigins,
          isGrantable origin = true ∧ asked = some (bytesOf origin))
      ∧ (∀ origin ∈ settings.allowedOrigins,
          isGrantable origin = true → asked = some (bytesOf origin) →
          granted = [⟨"access-control-allow-origin", bytesOf origin⟩])
      ∧ (∀ header ∈ granted, header.value ≠ bytesOf "*")
      ∧ named "access-control-allow-credentials" reply.headers
          = [.ofText "access-control-allow-credentials" "true"]
      ∧ started.2 = (Limiter.start limits).2
          ++ (settings.allowedOrigins.filter fun origin => !isGrantable origin).map
            warningAbout := by
  intro started router reply granted asked
  have hgranted : granted = (((ofSettings settings).1.allowedOrigin? request).map
      fun origin => Header.mk "access-control-allow-origin" origin).toList :=
    named_allowOrigin_run limits settings actions fresh request
  have hechoed : ∀ origin ∈ settings.allowedOrigins,
      isGrantable origin = true → asked = some (bytesOf origin) →
      granted = [⟨"access-control-allow-origin", bytesOf origin⟩] := by
    intro origin hmem hgrantable hasked
    have hallowed : (ofSettings settings).1.allowedOrigin? request
        = some (bytesOf origin) :=
      (allowedOrigin?_eq_some_iff settings request _).mpr
        ⟨origin, hmem, hgrantable, rfl, hasked⟩
    rw [hgranted, hallowed]
    rfl
  refine ⟨?_, ⟨?_, ?_⟩, hechoed, ?_, ?_, ?_⟩
  · have hrules : router.rules = started.1.rules := run_rules started.1 actions
    rw [hrules]
    exact if_neg (wildcard_not_mem_allowed settings)
  · intro hsome
    cases hallowed : (ofSettings settings).1.allowedOrigin? request with
    | none => simp [hgranted, hallowed] at hsome
    | some value =>
        obtain ⟨origin, hmem, hgrantable, rfl, hasked⟩ :=
          (allowedOrigin?_eq_some_iff settings request value).mp hallowed
        exact ⟨origin, hmem, hgrantable, hasked⟩
  · rintro ⟨origin, hmem, hgrantable, hasked⟩
    rw [hechoed origin hmem hgrantable hasked]
    exact List.cons_ne_nil _ _
  · intro header hmem hwildcard
    rw [hgranted, Option.mem_toList, Option.map_eq_some_iff] at hmem
    obtain ⟨value, hallowed, rfl⟩ := hmem
    rw [show value = bytesOf "*" from hwildcard] at hallowed
    exact allowedOrigin?_ne_wildcard settings request hallowed
  · exact (named_of_mem_commonNames (by simp [commonNames])).trans
      (named_credentials _ _)
  · rw [← ofSettings_warnings]
    rfl

/-- The wildcard is left out twice, and an origin with a line feed; the one that
is left is configured twice, and even a denial names it. -/
theorem grants_configured_of_denied :
    let limits : Settings.RateLimit := ⟨true, 10, 1, .ofNanos 60000000000⟩
    let settings : Settings.CrossOrigin :=
      ⟨["*", "http://a.example", "\u00A0*\t", "http://b.example\n",
        "http://a.example"], 300⟩
    let request : Request :=
      ⟨"POST", .ofText "/api/v1/health", [.ofText "Origin" "http://a.example"], none⟩
    let started := start limits settings
    let router := (started.1.run [.serve "1" request]).2.1
    let reply := (router.handle "2" request).1
    reply.status = 429
      ∧ named "access-control-allow-origin" reply.headers
        = [.ofText "access-control-allow-origin" "http://a.example"]
      ∧ started.2.tail = [.wildcardOriginSkipped, .wildcardOriginSkipped,
        .invalidOriginSkipped "http://b.example\n"] := by
  intro limits settings request
  have hdenied : (((start limits settings).1.run [.serve "1" request]).2.1.handle "2"
      request).1.status = 429 := by decide +kernel
  have hgrantable : isGrantable "http://a.example" = true := by decide +kernel
  have hasked : Header.first? "origin" request.headers
      = some (bytesOf "http://a.example") := by decide +kernel
  have hskipped : (settings.allowedOrigins.filter fun origin => !isGrantable origin).map
      warningAbout = [.wildcardOriginSkipped, .wildcardOriginSkipped,
        .invalidOriginSkipped "http://b.example\n"] := by decide +kernel
  obtain ⟨-, -, hechoed, -, -, hwarned⟩ :=
    grants_configured limits settings [.serve "1" request] "2" request
  refine ⟨hdenied, hechoed _ (by simp [settings]) hgrantable hasked, ?_⟩
  rw [hwarned, hskipped]
  rfl

end Router

end Turnstile.Http
