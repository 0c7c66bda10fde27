/-
Who a client is taken for, and what decides it.

A request may offer three candidates: the first entry of its first
`X-Forwarded-For`, its first `X-Real-IP`, and the address of its peer. `Candidate`
says what each of them is, in terms of the fields and their bytes: which field counts,
that all its bytes are readable, where the entry ends, and that blanks around it are
left out and something remains. The client is the first candidate, and nobody if there
is none (`client_of_first_candidate`). Nothing else of the request has a say: not what
follows the entry or its field, not a candidate of lower precedence, not the case of
a name, the blanks, or the port of the peer. Requests with the same first candidate
share a bucket.

Where only the peer is left to decide, a client is an address, and different
addresses are different clients (`client_of_peer`).

Chain (service): Text/Runs.lean, Http/AddressText.lean and Http/Charging.lean below; top
statements of the library.
-/
import Mathlib
import Turnstile.Proofs.Http.AddressText
import Turnstile.Proofs.Http.Charging

namespace Turnstile.Http

open Text

-- ========================================================= what a field offers

/-- The field that counts of those with a name: no field before it has the name, in
whatever letters, and what comes after it does not matter. -/
def FirstField (name : String) (headers : List Header) (value : Bytes) : Prop :=
  ∃ before label after, headers = before ++ ⟨label, value⟩ :: after
    ∧ Header.lowered label = Header.lowered name
    ∧ ∀ header ∈ before, Header.lowered header.name ≠ Header.lowered name

/-- All bytes are visible ASCII characters, spaces or tabs. -/
def Readable (value : Bytes) : Prop :=
  ∀ b ∈ value, b = 0x09 ∨ 0x20 ≤ b ∧ b ≤ 0x7e

/-- The characters of a readable value. -/
def charsOf (value : Bytes) : List Char :=
  value.map fun b => Char.ofNat b.toNat

/-- The part of a text before the first separator, or the whole if there is none. -/
def FirstPart (separator : Char) (cs part : List Char) : Prop :=
  separator ∉ part ∧ (cs = part ∨ ∃ rest, cs = part ++ separator :: rest)

variable {name text : String} {headers : List Header} {value : Bytes} {separator : Char}
  {cs part entry : List Char}

theorem first?_eq_some_iff :
    Header.first? name headers = some value ↔ FirstField name headers value := by
  unfold Header.first? FirstField
  rw [Option.map_eq_some_iff]
  constructor
  · rintro ⟨⟨label, found⟩, hfind, rfl⟩
    obtain ⟨hlabel, before, after, rfl, hbefore⟩ := List.find?_eq_some_iff_append.mp hfind
    refine ⟨before, label, after, rfl, beq_iff_eq.mp hlabel, fun header hmem => ?_⟩
    simpa using hbefore header hmem
  · rintro ⟨before, label, after, rfl, hlabel, hbefore⟩
    refine ⟨⟨label, value⟩, List.find?_eq_some_iff_append.mpr
      ⟨beq_iff_eq.mpr hlabel, before, after, rfl, fun header hmem => ?_⟩, rfl⟩
    simpa using hbefore header hmem

theorem isTextByte_iff (b : UInt8) :
    isTextByte b = true ↔ b = 0x09 ∨ 0x20 ≤ b ∧ b ≤ 0x7e := by
  simp [isTextByte]

theorem textOf?_eq_some_iff :
    textOf? value = some text ↔ Readable value ∧ text = String.ofList (charsOf value) := by
  have hreadable : value.all isTextByte = true ↔ Readable value := by
    rw [List.all_eq_true]
    exact forall₂_congr fun b _ => isTextByte_iff b
  unfold textOf?
  rw [Option.ite_none_right_eq_some, hreadable, Option.some.injEq, eq_comm (a := text)]
  rfl

theorem fieldText?_eq_some_iff :
    fieldText? name headers = some text
      ↔ ∃ value, FirstField name headers value ∧ Readable value
        ∧ text = String.ofList (charsOf value) := by
  unfold fieldText?
  rw [Option.bind_eq_some_iff]
  exact exists_congr fun value => and_congr first?_eq_some_iff textOf?_eq_some_iff

theorem firstPart_iff : FirstPart separator cs part ↔ part = cs.takeWhile (· != separator) := by
  constructor
  · rintro ⟨hplain, hcs⟩
    have hrun : ∀ c ∈ part, (c != separator) = true := by
      intro c hc
      rw [bne_iff_ne]
      rintro rfl
      exact hplain hc
    rcases hcs with rfl | ⟨rest, rfl⟩
    · have hall := takeWhile_run hrun stops_nil
      rw [List.append_nil] at hall
      exact hall.symm
    · exact (takeWhile_run hrun (stops_cons.mpr (by simp))).symm
  · rintro rfl
    have hsplit := List.takeWhile_append_dropWhile (p := (· != separator)) (l := cs)
    have hstops := stops_dropWhile (· != separator) cs
    refine ⟨fun hmem => ?_, ?_⟩
    · have hkept := List.mem_takeWhile_imp hmem
      simp at hkept
    · cases hrest : cs.dropWhile (· != separator) with
      | nil =>
          rw [hrest, List.append_nil] at hsplit
          exact .inl hsplit.symm
      | cons c rest =>
          rw [hrest, stops_cons] at hstops
          have hc : c = separator := by simpa using hstops
          rw [hrest, hc] at hsplit
          exact .inr ⟨rest, hsplit.symm⟩

theorem trims_iff : Trims cs entry ↔ entry = trim cs := by
  constructor
  · exact Trims.eq_trim
  · rintro rfl
    exact trims_trim cs

-- ================================================================= candidates

/-- Where an identity can come from. -/
inductive Source where
  | forwarded
  | real
  | peer
deriving DecidableEq

/-- Lower numbers come first. -/
def Source.precedence : Source → ℕ
  | .forwarded => 0
  | .real => 1
  | .peer => 2

/-- What a request offers as the identity of its client. -/
inductive Request.Candidate (request : Request) : Source → String → Prop
  | forwarded {value : Bytes} {part entry : List Char}
      (field : FirstField "x-forwarded-for" request.headers value)
      (readable : Readable value) (first : FirstPart ',' (charsOf value) part)
      (trims : Trims part entry) (remains : entry ≠ []) :
      Candidate request .forwarded (String.ofList entry)
  | real {value : Bytes} {entry : List Char}
      (field : FirstField "x-real-ip" request.headers value)
      (readable : Readable value) (trims : Trims (charsOf value) entry)
      (remains : entry ≠ []) : Candidate request .real (String.ofList entry)
  | peer {address : Address} (known : request.peer? = some address) :
      Candidate request .peer address.text

/-- A candidate with none before it. -/
def Request.FirstCandidate (request : Request) (source : Source) (name : String) : Prop :=
  request.Candidate source name
    ∧ ∀ earlier other, earlier.precedence < source.precedence →
      ¬request.Candidate earlier other

variable {request other : Request}

/-- The candidate of a source, if it has one. -/
def Request.offered? (request : Request) : Source → Option String
  | .forwarded => (fieldText? "x-forwarded-for" request.headers).map firstEntry
  | .real => (fieldText? "x-real-ip" request.headers).map fun value =>
      String.ofList (trim value.toList)
  | .peer => request.peer?.map Address.text

theorem Request.candidate_iff {source : Source} :
    request.Candidate source name ↔ (request.offered? source).filter (· != "") = some name := by
  rw [Option.filter_eq_some_iff, bne_iff_ne]
  cases source with
  | forwarded =>
      constructor
      · rintro ⟨field, readable, first, trims, remains⟩
        refine ⟨?_, String.ofList_eq_empty_iff.not.mpr remains⟩
        have htext := fieldText?_eq_some_iff.mpr ⟨_, field, readable, rfl⟩
        show (fieldText? _ _).map firstEntry = _
        rw [htext, Option.map_some, firstEntry, String.toList_ofList, ← firstPart_iff.mp first,
          ← trims_iff.mp trims]
      · rintro ⟨hoffered, hname⟩
        obtain ⟨text, htext, rfl⟩ := Option.map_eq_some_iff.mp hoffered
        obtain ⟨value, field, readable, rfl⟩ := fieldText?_eq_some_iff.mp htext
        rw [firstEntry, String.toList_ofList] at hname ⊢
        have remains := String.ofList_eq_empty_iff.not.mp hname
        exact .forwarded field readable (firstPart_iff.mpr rfl) (trims_iff.mpr rfl) remains
  | real =>
      constructor
      · rintro ⟨⟩
        case real field readable trims remains =>
          refine ⟨?_, String.ofList_eq_empty_iff.not.mpr remains⟩
          have htext := fieldText?_eq_some_iff.mpr ⟨_, field, readable, rfl⟩
          show (fieldText? _ _).map _ = _
          rw [htext, Option.map_some, String.toList_ofList, ← trims_iff.mp trims]
      · rintro ⟨hoffered, hname⟩
        obtain ⟨text, htext, rfl⟩ := Option.map_eq_some_iff.mp hoffered
        obtain ⟨value, field, readable, rfl⟩ := fieldText?_eq_some_iff.mp htext
        rw [String.toList_ofList] at hname ⊢
        have remains := String.ofList_eq_empty_iff.not.mp hname
        exact .real field readable (trims_iff.mpr rfl) remains
  | peer =>
      constructor
      · rintro ⟨⟩
        case peer address known =>
          exact ⟨congrArg (Option.map Address.text) known, Address.text_ne_empty address⟩
      · rintro ⟨hoffered, -⟩
        obtain ⟨address, known, rfl⟩ := Option.map_eq_some_iff.mp hoffered
        exact .peer known

-- ================================================================== the client

theorem find?_toList {α : Type} (kind : α → Bool) (found? : Option α) :
    found?.toList.find? kind = found?.filter kind := by
  cases found? with
  | none => rfl
  | some found => simp [Option.filter]

/-- The client is looked for in the order of precedence. -/
theorem Request.client_eq (request : Request) :
    request.client
      = (((request.offered? .forwarded).filter (· != "")).or
          (((request.offered? .real).filter (· != "")).or
            ((request.offered? .peer).filter (· != "")))).getD "" := by
  unfold Request.client clientIdentity identityCandidates
  rw [List.find?_append, List.find?_append, find?_toList, find?_toList, find?_toList,
    Option.or_assoc]
  rfl

theorem Request.filter_eq_none {source : Source} (hnone : ∀ name, ¬request.Candidate source name) :
    (request.offered? source).filter (· != "") = none :=
  Option.eq_none_iff_forall_ne_some.mpr fun name hname =>
    hnone name (Request.candidate_iff.mpr hname)

theorem Request.client_of_no_candidate (hnone : ∀ source name, ¬request.Candidate source name) :
    request.client = "" := by
  rw [request.client_eq, Request.filter_eq_none (hnone .forwarded),
    Request.filter_eq_none (hnone .real), Request.filter_eq_none (hnone .peer)]
  rfl

theorem Request.FirstCandidate.client {source : Source}
    (hfirst : request.FirstCandidate source name) : request.client = name := by
  obtain ⟨hname, hearlier⟩ := hfirst
  have hfound := Request.candidate_iff.mp hname
  rw [request.client_eq]
  cases source with
  | forwarded => rw [hfound, Option.some_or, Option.getD_some]
  | real =>
      rw [Request.filter_eq_none fun other => hearlier .forwarded other (by decide), hfound,
        Option.none_or, Option.some_or, Option.getD_some]
  | peer =>
      rw [Request.filter_eq_none fun other => hearlier .forwarded other (by decide),
        Request.filter_eq_none fun other => hearlier .real other (by decide), hfound,
        Option.none_or, Option.none_or, Option.getD_some]

/-- Of some candidates one is the first. -/
theorem Request.Candidate.exists_first {source : Source} (hname : request.Candidate source name) :
    ∃ first found, request.FirstCandidate first found := by
  induction hprecedence : source.precedence using Nat.strong_induction_on
    generalizing source name with
  | h place ih =>
      by_cases hfirst : ∀ earlier other, earlier.precedence < source.precedence →
          ¬request.Candidate earlier other
      · exact ⟨source, name, hname, hfirst⟩
      · push Not at hfirst
        obtain ⟨earlier, other, hless, hother⟩ := hfirst
        exact ih _ (hprecedence ▸ hless) hother rfl

/-- The client is the first candidate, or nobody if there is none. -/
theorem Request.client_eq_iff : request.client = name
    ↔ (∃ source, request.FirstCandidate source name)
      ∨ (∀ source other, ¬request.Candidate source other) ∧ name = "" := by
  constructor
  · rintro rfl
    by_cases hnone : ∀ source other, ¬request.Candidate source other
    · exact .inr ⟨hnone, Request.client_of_no_candidate hnone⟩
    · push Not at hnone
      obtain ⟨source, other, hother⟩ := hnone
      obtain ⟨first, found, hfirst⟩ := hother.exists_first
      exact .inl ⟨first, hfirst.client.symm ▸ hfirst⟩
  · rintro (⟨source, hfirst⟩ | ⟨hnone, rfl⟩)
    · exact hfirst.client
    · exact Request.client_of_no_candidate hnone

/-- No candidate begins or ends with a blank. -/
theorem Request.Candidate.stops {source : Source} (hname : request.Candidate source name) :
    Stops isBlank name.toList ∧ Stops isBlank name.toList.reverse := by
  cases hname with
  | forwarded field readable first trims remains =>
      obtain ⟨-, -, -, -, -, hstops⟩ := trims
      rwa [String.toList_ofList]
  | real field readable trims remains =>
      obtain ⟨-, -, -, -, -, hstops⟩ := trims
      rwa [String.toList_ofList]
  | @peer address known =>
      have hplain : ∀ c ∈ address.text.toList, isBlank c = false := by
        intro c hc
        rcases Address.mem_text hc with rfl | rfl | hdigit
        · decide
        · decide
        · exact not_isBlank_of_isHexDigit hdigit
      constructor
      · intro c hc
        exact hplain c (List.mem_of_mem_head? hc)
      · intro c hc
        exact hplain c (List.mem_reverse.mp (List.mem_of_mem_head? hc))

theorem Request.Candidate.comma_not_mem (hname : request.Candidate .forwarded name) :
    ',' ∉ name.toList := by
  cases hname with
  | forwarded field readable first trims remains =>
      obtain ⟨before, after, rfl, -, -, -⟩ := trims
      rw [String.toList_ofList]
      intro hcomma
      exact first.1 (List.mem_append_right _ (List.mem_append_left _ hcomma))

-- ================================================================== the bucket

variable {router : Router} {fresh fresh' : String}

/-- Requests of one client that are charged are charged to one bucket. -/
theorem Router.handle_of_same_client (hclient : other.client = request.client)
    (hlimited : request.isLimited = true) (hlimited' : other.isLimited = true) :
    (router.handle fresh' other).2.1.limiter = (router.handle fresh request).2.1.limiter
      ∧ ((router.handle fresh' other).1.status = 429
        ↔ (router.handle fresh request).1.status = 429) := by
  rw [Router.handle_limiter, Router.handle_limiter, if_pos hlimited, if_pos hlimited',
    Router.status_eq_denial_iff, Router.status_eq_denial_iff, Router.charges_iff,
    Router.charges_iff, hclient, hlimited, hlimited']
  exact ⟨rfl, Iff.rfl⟩

theorem Request.FirstCandidate.exists_iff {source : Source} {found : String}
    (hfirst : request.FirstCandidate source found) :
    (∃ source, request.FirstCandidate source name) ↔ name = found := by
  constructor
  · rintro ⟨other, hother⟩
    rw [← hother.client, hfirst.client]
  · rintro rfl
    exact ⟨source, hfirst⟩

-- ============================================================== who it decides on

/-- The client is the first candidate, or nobody if there is none. It neither begins nor
ends with a blank, and has no comma in it if it comes from `X-Forwarded-For`. The port of
a peer is not even read. Two requests with the same first candidate, or both without, are
of one client, whatever else is in them; if they are charged, the same bucket is left
behind and both are denied or neither. -/
theorem client_of_first_candidate (request : Request) :
    (∀ name, request.client = name
      ↔ (∃ source, request.FirstCandidate source name)
        ∨ (∀ source other, ¬request.Candidate source other) ∧ name = "")
      ∧ Stops isBlank request.client.toList ∧ Stops isBlank request.client.toList.reverse
      ∧ (∀ name, request.FirstCandidate .forwarded name → ',' ∉ request.client.toList)
      ∧ (∀ peer : Peer, Address.ofPeer? peer.text = some peer.address)
      ∧ ∀ other : Request,
        (∀ name, (∃ source, request.FirstCandidate source name)
          ↔ ∃ source, other.FirstCandidate source name) →
        other.client = request.client
          ∧ ∀ (router : Router) (fresh fresh' : String),
            request.isLimited = true → other.isLimited = true →
            (router.handle fresh' other).2.1.limiter
                = (router.handle fresh request).2.1.limiter
              ∧ ((router.handle fresh' other).1.status = 429
                ↔ (router.handle fresh request).1.status = 429) := by
  have hstops : Stops isBlank request.client.toList
      ∧ Stops isBlank request.client.toList.reverse := by
    rcases Request.client_eq_iff.mp (rfl : request.client = _) with
      ⟨source, hname, -⟩ | ⟨-, hempty⟩
    · exact hname.stops
    · rw [hempty]
      exact ⟨stops_nil, stops_nil⟩
  refine ⟨fun name => Request.client_eq_iff, hstops.1, hstops.2, fun name hfirst => ?_,
    Peer.ofPeer?_text, fun other hsame => ?_⟩
  · rw [hfirst.client]
    exact hfirst.1.comma_not_mem
  · have hclient : other.client = request.client := by
      rcases Request.client_eq_iff.mp (rfl : request.client = _) with
        hfirst | ⟨hnone, hempty⟩
      · obtain ⟨source, hfirst⟩ := (hsame _).mp hfirst
        exact hfirst.client
      · -- then the other request has no candidate either
        rw [hempty]
        refine Request.client_of_no_candidate fun source name hname => ?_
        obtain ⟨first, found, hfirst⟩ := hname.exists_first
        obtain ⟨source', hfirst'⟩ := (hsame found).mpr ⟨first, hfirst⟩
        exact hnone source' found hfirst'.1
    refine ⟨hclient, fun router fresh fresh' hlimited hlimited' => ?_⟩
    exact Router.handle_of_same_client hclient hlimited hlimited'

/-- Two requests that have nothing in common but the first entry. -/
theorem client_of_first_candidate_of_two_requests :
    let request : Request :=
      ⟨"GET", .ofText "/api/v1/health",
        [⟨"X-Forwarded-For", bytesOf "\t10.0.0.1 , 172.16.0.1"⟩,
          ⟨"x-forwarded-for", bytesOf "172.16.0.2"⟩, ⟨"x-real-ip", bytesOf "172.16.0.3"⟩],
        Address.ofPeer? "203.0.113.7:54321"⟩
    let other : Request :=
      ⟨"POST", .ofText "/api/v1/rate-limit",
        [⟨"X-Real-IP", [0xff]⟩, ⟨"x-FORWARDED-for", bytesOf "10.0.0.1"⟩], none⟩
    request.FirstCandidate .forwarded "10.0.0.1" ∧ other.FirstCandidate .forwarded "10.0.0.1"
      ∧ request.client = "10.0.0.1" ∧ other.client = request.client
      ∧ ∀ (router : Router) (fresh fresh' : String),
        (router.handle fresh' other).2.1.limiter
          = (router.handle fresh request).2.1.limiter := by
  intro request other
  have hfirst : request.FirstCandidate .forwarded "10.0.0.1" :=
    ⟨Request.candidate_iff.mpr (by decide +kernel), fun _ _ hless => nomatch hless⟩
  have hfirst' : other.FirstCandidate .forwarded "10.0.0.1" :=
    ⟨Request.candidate_iff.mpr (by decide +kernel), fun _ _ hless => nomatch hless⟩
  have hlimited : request.isLimited = true := by decide +kernel
  have hlimited' : other.isLimited = true := by decide +kernel
  obtain ⟨hclient, -, -, -, -, hshared⟩ := client_of_first_candidate request
  obtain ⟨hsame, hhandle⟩ := hshared other fun name =>
    hfirst.exists_iff.trans hfirst'.exists_iff.symm
  refine ⟨hfirst, hfirst', (hclient _).mpr (.inl ⟨_, hfirst⟩), hsame, ?_⟩
  intro router fresh fresh'
  exact (hhandle router fresh fresh' hlimited hlimited').1

/-- Where neither field offers anything, the client is the address of the peer, and two
clients are the same exactly if their addresses are: of one kind and equal in every bit.
Neither is nobody. -/
theorem client_of_peer (request other : Request) (peer peer' : Peer)
    (hpeer : request.peer? = Address.ofPeer? peer.text)
    (hpeer' : other.peer? = Address.ofPeer? peer'.text)
    (hnone : ∀ name, ¬request.Candidate .forwarded name ∧ ¬request.Candidate .real name)
    (hnone' : ∀ name, ¬other.Candidate .forwarded name ∧ ¬other.Candidate .real name) :
    (request.client = other.client ↔ peer.address = peer'.address)
      ∧ request.client = peer.address.text ∧ request.client ≠ "" := by
  have hclient : ∀ (request : Request) (peer : Peer),
      request.peer? = Address.ofPeer? peer.text →
      (∀ name, ¬request.Candidate .forwarded name ∧ ¬request.Candidate .real name) →
      request.client = peer.address.text := by
    intro request peer hpeer hnone
    have hfirst : request.FirstCandidate .peer peer.address.text := by
      refine ⟨.peer (hpeer.trans peer.ofPeer?_text), fun earlier other hless => ?_⟩
      cases earlier with
      | forwarded => exact (hnone other).1
      | real => exact (hnone other).2
      | peer => exact absurd hless (Nat.lt_irrefl _)
    exact hfirst.client
  have hone := hclient request peer hpeer hnone
  rw [hone, hclient other peer' hpeer' hnone']
  exact ⟨Address.text_injective.eq_iff, rfl, Address.text_ne_empty _⟩

/-- An address of the older kind and the one of the newer kind that stands for it are two
clients. -/
theorem client_of_peer_of_mapped :
    let peer : Peer := .v4 #v[1, 2, 3, 4] 80
    let peer' : Peer := .v6 #v[0, 0, 0, 0, 0, 0xffff, 0x102, 0x304] 3 443
    let request : Request :=
      ⟨"GET", .ofText "/", [⟨"x-forwarded-for", bytesOf " , 10.0.0.9"⟩],
        Address.ofPeer? peer.text⟩
    let other : Request :=
      ⟨"GET", .ofText "/", [⟨"x-real-ip", [0xff]⟩], Address.ofPeer? peer'.text⟩
    request.client ≠ other.client ∧ request.client = "1.2.3.4"
      ∧ other.client = "::ffff:1.2.3.4" := by
  intro peer peer' request other
  have hnone : ∀ (request : Request) (source : Source),
      (request.offered? source).filter (· != "") = none →
      ∀ name, ¬request.Candidate source name := by
    intro request source hfilter name hname
    rw [Request.candidate_iff, hfilter] at hname
    cases hname
  have hrequest : ∀ name, ¬request.Candidate .forwarded name ∧ ¬request.Candidate .real name :=
    fun name => ⟨hnone request .forwarded (by decide +kernel) name,
      hnone request .real (by decide +kernel) name⟩
  have hother : ∀ name, ¬other.Candidate .forwarded name ∧ ¬other.Candidate .real name :=
    fun name => ⟨hnone other .forwarded (by decide +kernel) name,
      hnone other .real (by decide +kernel) name⟩
  have happart : peer.address ≠ peer'.address := by decide
  obtain ⟨hsame, htext, -⟩ := client_of_peer request other peer peer' rfl rfl hrequest hother
  obtain ⟨-, htext', -⟩ := client_of_peer other request peer' peer rfl rfl hother hrequest
  refine ⟨mt hsame.mp happart, htext.trans ?_, htext'.trans ?_⟩ <;> decide +kernel

end Turnstile.Http
