/-
# Envelopes survive the hop

What the API packs is what the gateway unpacks, and what the gateway accepts would be packed to the
same. Every header of an envelope then is on the request to the agent, unless one of them has a value
with a code unit above 255: the schema lets it pass, and a `Headers` refuses it.
-/

import Eveland.AgentAuth.AgentEnvelopes

namespace Eveland.AgentEnvelopes

open Js

/-! ## Base64url -/

/-- The letter of a sextet in base64url. -/
def urlLetter (n : ℕ) : UInt16 :=
  if n = 62 then 45 else if n = 63 then 95 else letter n

theorem urlLetter_facts : ∀ n < 64, isUrlUnit (urlLetter n) = true ∧ urlLetter n ≠ 61 ∧
    letter n ≠ 61 ∧ sextetOf (letter n) = some n := by
  decide

theorem replaceAll_append (first second : Text) (search replacement : UInt16) :
    replaceAll (first ++ second) search replacement =
      replaceAll first search replacement ++ replaceAll second search replacement := by
  rw [replaceAll, List.map_append]
  rfl

/-- The letters of sextets in base64url. -/
theorem replaceAll_letters {sextets : List ℕ} (h : ∀ n ∈ sextets, n < 64) :
    replaceAll (replaceAll (sextets.map letter) 43 45) 47 95 = sextets.map urlLetter := by
  have hletter : ∀ n < 64, (if (if letter n = 43 then 45 else letter n) = 47 then (95 : UInt16)
      else if letter n = 43 then 45 else letter n) = urlLetter n := by decide
  rw [replaceAll, replaceAll, List.map_map, List.map_map]
  exact List.map_congr_left fun n hn => hletter n (h n hn)

/-- The letters of sextets, back from base64url. -/
theorem replaceAll_urlLetters {sextets : List ℕ} (h : ∀ n ∈ sextets, n < 64) :
    replaceAll (replaceAll (sextets.map urlLetter) 45 43) 95 47 = sextets.map letter := by
  have hletter : ∀ n < 64, (if (if urlLetter n = 45 then 43 else urlLetter n) = 95 then (47 : UInt16)
      else if urlLetter n = 45 then 43 else urlLetter n) = letter n := by decide
  rw [replaceAll, replaceAll, List.map_map, List.map_map]
  exact List.map_congr_left fun n hn => hletter n (h n hn)

theorem replaceAll_padding (k : ℕ) {search : UInt16} (h : search ≠ 61) (replacement : UInt16) :
    replaceAll (List.replicate k 61) search replacement = List.replicate k 61 := by
  rw [replaceAll, List.map_replicate, if_neg (Ne.symm h)]

/-- Padding at the end of a text without any is stripped. -/
theorem rdropWhile_padding {text : Text} (h : ∀ u ∈ text, u ≠ 61) (k : ℕ) :
    (text ++ List.replicate k 61).rdropWhile (fun u => u = 61) = text := by
  induction k with
  | zero =>
      rw [List.replicate_zero, List.append_nil, List.rdropWhile_eq_self_iff]
      intro hne hlast
      exact h _ (List.getLast_mem hne) (by simpa using hlast)
  | succ k ih =>
      rw [List.replicate_succ', ← List.append_assoc, List.rdropWhile_concat_pos _ _ _ (by simp), ih]

/-- What is packed is the letters of its sextets. -/
theorem encodeBase64Url_eq (bytes : List UInt8) :
    encodeBase64Url bytes = (Base64.sextets bytes).map urlLetter := by
  have hlt := Base64.sextets_lt bytes
  rw [encodeBase64Url, btoa, replaceAll_append, replaceAll_append, replaceAll_letters hlt,
    replaceAll_padding _ (by decide), replaceAll_padding _ (by decide)]
  apply rdropWhile_padding
  intro u hu
  obtain ⟨n, hn, rfl⟩ := List.mem_map.mp hu
  exact (urlLetter_facts n (hlt n hn)).2.1

theorem dropPadding_eq {text : Text} (h : ∀ u ∈ text, u ≠ 61) {k : ℕ} (hk : k ≤ 2) :
    dropPadding (text ++ List.replicate k 61) = text := by
  have hlast : text.getLast? ≠ some 61 := by
    intro hlast
    exact h 61 (List.mem_of_getLast? hlast) rfl
  obtain rfl | rfl | rfl : k = 0 ∨ k = 1 ∨ k = 2 := by omega
  · rw [List.replicate_zero, List.append_nil, dropPadding, if_neg hlast]
  · rw [List.replicate_one, dropPadding, if_pos (by simp), List.dropLast_concat, if_neg hlast]
  · have htwo : text ++ List.replicate 2 61 = (text ++ [61]) ++ [61] := by simp
    rw [htwo, dropPadding, if_pos (by simp), List.dropLast_concat, if_pos (by simp),
      List.dropLast_concat]

theorem mapM_sextetOf {sextets : List ℕ} (h : ∀ n ∈ sextets, n < 64) :
    (sextets.map letter).mapM sextetOf = some sextets := by
  induction sextets with
  | nil => rfl
  | cons n rest ih =>
      have hn := (urlLetter_facts n (h n List.mem_cons_self)).2.2.2
      rw [List.map_cons, List.mapM_cons, hn, ih fun m hm => h m (List.mem_cons_of_mem _ hm)]
      rfl

/-- `atob` reads the letters of sextets with their padding. -/
theorem atob_letters {sextets : List ℕ} (h : ∀ n ∈ sextets, n < 64)
    (hmod : sextets.length % 4 ≠ 1) :
    atob (sextets.map letter ++ List.replicate ((4 - sextets.length % 4) % 4) 61) =
      some (Base64.octets sextets) := by
  have hpad : ∀ u ∈ sextets.map letter, u ≠ 61 := by
    intro u hu
    obtain ⟨n, hn, rfl⟩ := List.mem_map.mp hu
    exact (urlLetter_facts n (h n hn)).2.2.1
  have hlength : (sextets.map letter ++
      List.replicate ((4 - sextets.length % 4) % 4) (61 : UInt16)).length % 4 = 0 := by
    rw [List.length_append, List.length_map, List.length_replicate]
    omega
  rw [atob, if_pos hlength, dropPadding_eq hpad (by omega)]
  simp only [List.length_map, hmod, if_false, mapM_sextetOf h, Option.map_some]

/-- **Base64url.** What is packed is unpacked. -/
theorem decodeBase64Url_encodeBase64Url (bytes : List UInt8) :
    decodeBase64Url (encodeBase64Url bytes) = some bytes := by
  have hlt := Base64.sextets_lt bytes
  have hmod := Base64.length_sextets_mod bytes
  have hall : ((Base64.sextets bytes).map urlLetter).all isUrlUnit = true := by
    rw [List.all_eq_true]
    intro u hu
    obtain ⟨n, hn, rfl⟩ := List.mem_map.mp hu
    exact (urlLetter_facts n (hlt n hn)).1
  rw [encodeBase64Url_eq, decodeBase64Url, hall, replaceAll_urlLetters hlt, List.length_map,
    if_neg (by simpa using hmod), atob_letters hlt hmod, Base64.octets_sextets]

/-! ## The schema -/

/-- An envelope that the schema lets pass. -/
structure Accepted (envelope : AgentAuthEnvelope) : Prop where
  header : ∀ header ∈ envelope.headers, nameAllowed header.1 = true ∧ valueAllowed header.2 = true
  headers : headersAllowed envelope.headers = true

theorem credentialHeaderSchema_eq_some {value : Value} {header : Text × Text}
    (h : credentialHeaderSchema value = some header) :
    nameAllowed header.1 = true ∧ valueAllowed header.2 = true := by
  unfold credentialHeaderSchema at h
  split at h
  · split_ifs at h with hallowed
    rw [Bool.and_eq_true] at hallowed
    cases h
    exact hallowed
  · cases h

theorem mem_of_mapM {values : List Value} {headers : List (Text × Text)}
    (h : values.mapM credentialHeaderSchema = some headers) :
    ∀ header ∈ headers, nameAllowed header.1 = true ∧ valueAllowed header.2 = true := by
  induction values generalizing headers with
  | nil =>
      cases h
      intro header hheader
      cases hheader
  | cons value rest ih =>
      rw [List.mapM_cons] at h
      cases hfirst : credentialHeaderSchema value with
      | none => rw [hfirst] at h; cases h
      | some first =>
          cases hrest : rest.mapM credentialHeaderSchema with
          | none => rw [hfirst, hrest] at h; cases h
          | some more =>
              rw [hfirst, hrest] at h
              cases h
              intro header hheader
              cases hheader with
              | head => exact credentialHeaderSchema_eq_some hfirst
              | tail _ hmore => exact ih hrest header hmore

theorem mapM_headerValue {headers : List (Text × Text)}
    (h : ∀ header ∈ headers, nameAllowed header.1 = true ∧ valueAllowed header.2 = true) :
    (headers.map headerValue).mapM credentialHeaderSchema = some headers := by
  induction headers with
  | nil => rfl
  | cons header rest ih =>
      have hfirst : credentialHeaderSchema (headerValue header) = some header := by
        rw [headerValue, credentialHeaderSchema, if_pos]
        rw [(h header List.mem_cons_self).1, (h header List.mem_cons_self).2]
        rfl
      rw [List.map_cons, List.mapM_cons, hfirst, ih fun later hlater =>
        h later (List.mem_cons_of_mem _ hlater)]
      rfl

/-- What the schema gives of headers is these headers. -/
theorem eq_of_mapM_headerValue {headers more : List (Text × Text)}
    (h : (headers.map headerValue).mapM credentialHeaderSchema = some more) : more = headers := by
  induction headers generalizing more with
  | nil =>
      cases h
      rfl
  | cons header rest ih =>
      rw [List.map_cons, List.mapM_cons, headerValue, credentialHeaderSchema] at h
      split_ifs at h with hallowed
      · cases hrest : (rest.map headerValue).mapM credentialHeaderSchema with
        | none => rw [hrest] at h; cases h
        | some later =>
            rw [hrest] at h
            cases h
            rw [ih hrest]
      · cases h

theorem credentialHeadersSchema_eq_some {value : Value} {headers : List (Text × Text)}
    (h : credentialHeadersSchema value = some headers) :
    (∀ header ∈ headers, nameAllowed header.1 = true ∧ valueAllowed header.2 = true) ∧
      headersAllowed headers = true := by
  unfold credentialHeadersSchema at h
  split at h
  · next elements =>
      cases hmap : elements.mapM credentialHeaderSchema with
      | none => rw [hmap] at h; cases h
      | some more =>
          rw [hmap] at h
          by_cases hallowed : headersAllowed more = true
          · simp only [bind, Option.bind, hallowed, if_true] at h
            cases h
            exact ⟨mem_of_mapM hmap, hallowed⟩
          · simp only [bind, Option.bind, hallowed] at h
            cases h
  · cases h

/-- What the schema gives is accepted. -/
theorem accepted_of_schema {value : Value} {envelope : AgentAuthEnvelope}
    (h : envelopeSchema value = some envelope) : Accepted envelope := by
  unfold envelopeSchema at h
  split at h
  · next fields =>
      simp only [Option.bind_eq_bind, Option.bind_eq_some_iff] at h
      obtain ⟨_, _, authority, _, headers, ⟨value, _, hheaders⟩, h⟩ := h
      have hallowed := credentialHeadersSchema_eq_some hheaders
      split_ifs at h
      cases h
      exact ⟨hallowed.1, hallowed.2⟩
  · cases h

theorem eq_of_credentialHeadersSchema {headers more : List (Text × Text)}
    (h : credentialHeadersSchema (.arr (headers.map headerValue)) = some more) : more = headers := by
  simp only [credentialHeadersSchema, Option.bind_eq_bind, Option.bind_eq_some_iff] at h
  obtain ⟨mapped, hmapped, h⟩ := h
  split_ifs at h
  cases h
  exact eq_of_mapM_headerValue hmapped

theorem authoritySchema_text (authority : AgentAuthAuthority) :
    authoritySchema (.str (authorityText authority)) = some authority := by
  cases authority
  · rfl
  · rfl

theorem literal_ne : literal "version" ≠ literal "authority" ∧
    literal "version" ≠ literal "headers" ∧ literal "authority" ≠ literal "headers" := by
  decide

/-- The schema gives an accepted envelope back. -/
theorem envelopeSchema_toValue {envelope : AgentAuthEnvelope} (h : Accepted envelope) :
    envelopeSchema (toValue envelope) = some envelope := by
  have hheaders : credentialHeadersSchema (.arr (envelope.headers.map headerValue)) =
      some envelope.headers := by
    rw [credentialHeadersSchema, mapM_headerValue h.header]
    simp only [bind, Option.bind, h.headers, if_true]
  have hversion : versionSchema (.num one) = some () := rfl
  obtain ⟨hva, hvh, hah⟩ := literal_ne
  rw [toValue, envelopeSchema]
  simp [field, hva, hvh, hah, hversion, authoritySchema_text, hheaders]

/-- What the schema gives of an envelope is this envelope. -/
theorem eq_of_envelopeSchema {envelope parsed : AgentAuthEnvelope}
    (h : envelopeSchema (toValue envelope) = some parsed) : parsed = envelope := by
  obtain ⟨hva, hvh, hah⟩ := literal_ne
  rw [toValue, envelopeSchema] at h
  simp only [Option.bind_eq_bind, Option.bind_eq_some_iff] at h
  obtain ⟨_, _, authority, ⟨value, hvalue, hauthority⟩, headers, ⟨list, hlist, hheaders⟩, h⟩ := h
  have hvalue : value = .str (authorityText envelope.authority) := by
    simpa [field, hva, eq_comm] using hvalue
  have hlist : list = .arr (envelope.headers.map headerValue) := by
    simpa [field, hvh, hah, eq_comm] using hlist
  rw [hvalue, authoritySchema_text] at hauthority
  rw [hlist] at hheaders
  split_ifs at h
  cases h
  cases hauthority
  rw [eq_of_credentialHeadersSchema hheaders]

/-- An envelope is packed exactly if it is accepted. -/
theorem encode_eq_some_iff {envelope : AgentAuthEnvelope} {text : Text} :
    encodeAgentAuthEnvelope envelope = some text ↔
      Accepted envelope ∧
        encodeBase64Url (encodeUtf8 (stringify (toValue envelope))) = text := by
  constructor
  · intro h
    rw [encodeAgentAuthEnvelope, Option.map_eq_some_iff] at h
    obtain ⟨parsed, hparsed, htext⟩ := h
    have haccepted := accepted_of_schema hparsed
    rw [eq_of_envelopeSchema hparsed] at haccepted htext
    exact ⟨haccepted, htext⟩
  · rintro ⟨haccepted, rfl⟩
    rw [encodeAgentAuthEnvelope, envelopeSchema_toValue haccepted]
    rfl

/-! ## The text of an envelope -/

theorem ownOrder_eq_self {fields : List (Text × Value)}
    (h : ∀ entry ∈ fields, isIndex entry = false) : ownOrder fields = fields := by
  have hindices : fields.filter isIndex = [] := by
    rw [List.filter_eq_nil_iff]
    intro entry hentry
    simp [h entry hentry]
  have hothers : (fields.filter fun entry => !isIndex entry) = fields := by
    rw [List.filter_eq_self]
    intro entry hentry
    simp [h entry hentry]
  rw [ownOrder, hindices, hothers]
  rfl

/-- None of the keys of an envelope is an array index. -/
theorem stringify_toValue (envelope : AgentAuthEnvelope) :
    stringify (toValue envelope) = print (toValue envelope) := by
  have hheaders : (envelope.headers.map headerValue).map (reorder ownOrder) =
      envelope.headers.map headerValue := by
    rw [List.map_map]
    apply List.map_congr_left
    intro header _
    rfl
  have hkeys : (arrayIndex (literal "version")).isSome = false ∧
      (arrayIndex (literal "authority")).isSome = false ∧
      (arrayIndex (literal "headers")).isSome = false := by
    decide +kernel
  rw [stringify, toValue]
  simp only [reorder, reorderFields, reorderElements_eq_map, hheaders]
  rw [ownOrder_eq_self]
  intro entry hentry
  simp only [List.mem_cons, List.not_mem_nil, or_false] at hentry
  rcases hentry with rfl | rfl | rfl
  · exact hkeys.1
  · exact hkeys.2.1
  · exact hkeys.2.2

/-- The literal of the version is read back. -/
theorem readsBack_one {numberOf : Text → Option NumberText} (h : numberOf one.text = some one) :
    ReadsBack numberOf one := by
  refine ⟨?_, h⟩
  intro rest hrest
  cases rest with
  | nil => rfl
  | cons u rest =>
      rcases hrest u rfl with rfl | rfl | rfl
      · rfl
      · rfl
      · rfl

theorem readable_toValue {numberOf : Text → Option NumberText} (h : numberOf one.text = some one)
    (envelope : AgentAuthEnvelope) : Readable numberOf (toValue envelope) := by
  refine .obj _ (by simpa [and_assoc] using literal_ne) ?_
  intro entry hentry
  simp only [List.mem_cons, List.not_mem_nil, or_false] at hentry
  rcases hentry with rfl | rfl | rfl
  · exact .num one (readsBack_one h)
  · exact .str _
  · refine .arr _ ?_
    intro element helement
    obtain ⟨header, _, rfl⟩ := List.mem_map.mp helement
    refine .arr _ ?_
    intro part hpart
    simp only [List.mem_cons, List.not_mem_nil, or_false] at hpart
    rcases hpart with rfl | rfl
    · exact .str _
    · exact .str _

/-- **Round trip.** What is packed is unpacked. -/
theorem decode_of_encode {numberOf : Text → Option NumberText} (hone : numberOf one.text = some one)
    {envelope : AgentAuthEnvelope} {text : Text}
    (h : encodeAgentAuthEnvelope envelope = some text) :
    decodeAgentAuthEnvelope numberOf text = some envelope := by
  obtain ⟨haccepted, rfl⟩ := encode_eq_some_iff.mp h
  have hmark : (print (toValue envelope)).head? ≠ some 0xFEFF := by
    rw [toValue, print, List.head?_cons]
    decide
  rw [decodeAgentAuthEnvelope, decodeBase64Url_encodeBase64Url, stringify_toValue]
  simp only [Option.bind_eq_bind, Option.bind_some,
    decodeUtf8_encodeUtf8 (Paired.print (toValue envelope)) hmark,
    parse_print (readable_toValue hone envelope), envelopeSchema_toValue haccepted]

/-- What is unpacked is accepted. -/
theorem accepted_of_decode {numberOf : Text → Option NumberText} {envelope : AgentAuthEnvelope}
    {text : Text} (h : decodeAgentAuthEnvelope numberOf text = some envelope) :
    Accepted envelope := by
  simp only [decodeAgentAuthEnvelope, Option.bind_eq_bind, Option.bind_eq_some_iff] at h
  obtain ⟨_, _, _, _, _, _, h⟩ := h
  exact accepted_of_schema h

/-! ## Values of octets -/

/-- A string of code units up to 255. -/
def IsByteString (value : Text) : Prop := ∀ u ∈ value, u ≤ 255

theorem mem_of_mem_normalizeValue {value : Text} {u : UInt16} (hu : u ∈ normalizeValue value) :
    u ∈ value := by
  have hstart : normalizeValue value <+: value.dropWhile isHttpSpace :=
    List.rdropWhile_prefix isHttpSpace _
  exact (List.dropWhile_sublist isHttpSpace).subset (hstart.subset hu)

/-- What is stripped is white space. -/
theorem mem_normalizeValue_or {value : Text} {u : UInt16} (hu : u ∈ value) :
    u ∈ normalizeValue value ∨ isHttpSpace u = true := by
  have hsplit : value.takeWhile isHttpSpace ++ value.dropWhile isHttpSpace = value :=
    List.takeWhile_append_dropWhile
  rw [← hsplit, List.mem_append] at hu
  rcases hu with hu | hu
  · exact .inr (List.mem_takeWhile_imp hu)
  · have hsplit := List.rdropWhile_append_rtakeWhile (p := isHttpSpace)
      (l := value.dropWhile isHttpSpace)
    rw [← hsplit, List.mem_append] at hu
    rcases hu with hu | hu
    · exact .inl hu
    · exact .inr (List.mem_rtakeWhile_imp hu)

theorem isByteString_of_isHttpSpace {u : UInt16} (hu : isHttpSpace u = true) : u ≤ 255 := by
  simp only [isHttpSpace, Bool.or_eq_true, decide_eq_true_eq] at hu
  rcases hu with ((rfl | rfl) | rfl) | rfl
  · decide
  · decide
  · decide
  · decide

/-- A value that the schema lets pass is taken exactly if it is a string of octets. -/
theorem isFieldValue_iff {value : Text} (h : valueAllowed value = true) :
    isFieldValue (normalizeValue value) = true ↔ IsByteString value := by
  simp only [isFieldValue, List.all_eq_true, Bool.and_eq_true, decide_eq_true_eq]
  constructor
  · intro hfield u hu
    rcases mem_normalizeValue_or hu with hnormal | hspace
    · exact (hfield u hnormal).1.1.1
    · exact isByteString_of_isHttpSpace hspace
  · intro hbytes u hu
    have hmem := mem_of_mem_normalizeValue hu
    have hcontrol : isControl u = false := by
      simp only [valueAllowed, Bool.and_eq_true, Bool.not_eq_true', List.any_eq_false] at h
      simpa using h.2 u hmem
    refine ⟨⟨⟨hbytes u hmem, ?_⟩, ?_⟩, ?_⟩
    · by_contra hzero
      simp only [Bool.not_eq_true, Bool.not_eq_false', decide_eq_true_eq] at hzero
      rw [hzero] at hcontrol
      cases hcontrol
    · by_contra hfeed
      simp only [Bool.not_eq_true, Bool.not_eq_false', decide_eq_true_eq] at hfeed
      rw [hfeed] at hcontrol
      cases hcontrol
    · by_contra hreturn
      simp only [Bool.not_eq_true, Bool.not_eq_false', decide_eq_true_eq] at hreturn
      rw [hreturn] at hcontrol
      cases hcontrol

/-! ## The headers of the request -/

theorem headerValueOf_eq_some_iff {value : Text} {taken : HeaderValue} :
    headerValueOf value = some taken ↔
      isFieldValue (normalizeValue value) = true ∧ taken.text = normalizeValue value := by
  obtain ⟨text, hnormal, hoctets⟩ := taken
  rw [headerValueOf]
  constructor
  · intro h
    split_ifs at h with hfield
    cases h
    exact ⟨hfield, rfl⟩
  · rintro ⟨hfield, htext⟩
    rw [dif_pos hfield]
    cases htext
    rfl

/-- A name that the schema lets pass is one that a `Headers` takes. -/
theorem token_of_nameAllowed {name : Text} (h : nameAllowed name = true) :
    name ≠ [] ∧ name.all isTokenUnit = true := by
  simp only [nameAllowed, Bool.and_eq_true, decide_eq_true_eq] at h
  obtain ⟨⟨⟨⟨⟨⟨hpos, _⟩, htoken⟩, _⟩, _⟩, _⟩, _⟩ := h
  refine ⟨?_, htoken⟩
  rintro rfl
  cases hpos

theorem lower_ne_host {name : Text} (h : nameAllowed name = true) :
    toLowerCase name ≠ literal "host" := by
  simp only [nameAllowed, Bool.and_eq_true, decide_eq_true_eq] at h
  obtain ⟨⟨⟨⟨_, hreserved⟩, _⟩, _⟩, _⟩ := h
  intro hhost
  rw [hhost] at hreserved
  exact absurd hreserved (by decide +kernel)

namespace Headers

variable {headers after : Headers} {name value : Text}

/-- A header that is replaced is found no more, and every other is. -/
theorem find?_filter_ne (headers : Headers) (name other : Text) :
    (headers.filter fun entry => entry.1 ≠ toLowerCase name).find?
        (fun entry => entry.1 = toLowerCase other) =
      if toLowerCase other = toLowerCase name then none
      else headers.find? fun entry => entry.1 = toLowerCase other := by
  rw [List.find?_filter]
  split_ifs with hsame
  · rw [List.find?_eq_none]
    intro entry _
    simp [hsame]
  · congr 1
    funext entry
    by_cases hentry : entry.1 = toLowerCase other
    · simp [hentry, hsame]
    · simp [hentry]

/-- What a header that was set leaves to be read. -/
theorem get_set (h : headers.set name value = some after) (other : Text) :
    after.get other =
      if toLowerCase other = toLowerCase name then headerValueOf value else headers.get other := by
  rw [set] at h
  split_ifs at h with hname
  obtain ⟨taken, htaken, hafter⟩ := Option.map_eq_some_iff.mp h
  rw [← hafter, get, List.find?_append, find?_filter_ne, List.find?_singleton, htaken]
  by_cases hsame : toLowerCase other = toLowerCase name
  · simp [hsame]
  · simp [hsame, Ne.symm hsame, get]

/-- Setting a header succeeds exactly if its value is taken. -/
theorem exists_set_iff (headers : Headers) {name value : Text}
    (hname : name ≠ [] ∧ name.all isTokenUnit = true) :
    (∃ after, headers.set name value = some after) ↔ isFieldValue (normalizeValue value) = true := by
  rw [set, if_pos hname, headerValueOf]
  constructor
  · rintro ⟨after, hafter⟩
    by_contra hfield
    rw [dif_neg hfield] at hafter
    cases hafter
  · intro hfield
    rw [dif_pos hfield]
    exact ⟨_, rfl⟩

/-- The credential headers, set one after the other. -/
def setAll (headers : Headers) (credentials : List (Text × Text)) : Option Headers :=
  credentials.foldlM (fun headers header => headers.set header.1 header.2) headers

/-- Headers of distinct names and values that are taken are all set, and leave the others. -/
theorem setAll_of_fieldValues {credentials : List (Text × Text)}
    (hname : ∀ header ∈ credentials, header.1 ≠ [] ∧ header.1.all isTokenUnit = true)
    (hvalue : ∀ header ∈ credentials, isFieldValue (normalizeValue header.2) = true)
    (hdistinct : (credentials.map fun header => toLowerCase header.1).Nodup) (headers : Headers) :
    ∃ after, headers.setAll credentials = some after ∧
      (∀ header ∈ credentials,
        (after.get header.1).map HeaderValue.text = some (normalizeValue header.2)) ∧
      ∀ other, toLowerCase other ∉ (credentials.map fun header => toLowerCase header.1) →
        after.get other = headers.get other := by
  induction credentials generalizing headers with
  | nil =>
      refine ⟨headers, rfl, ?_, fun other _ => rfl⟩
      intro header hheader
      cases hheader
  | cons first rest ih =>
      rw [List.map_cons, List.nodup_cons] at hdistinct
      obtain ⟨next, hnext⟩ :=
        (exists_set_iff headers (hname first List.mem_cons_self)).mpr
          (hvalue first List.mem_cons_self)
      obtain ⟨after, hafter, hset, hothers⟩ := ih
        (fun later hlater => hname later (List.mem_cons_of_mem _ hlater))
        (fun later hlater => hvalue later (List.mem_cons_of_mem _ hlater)) hdistinct.2 next
      refine ⟨after, ?_, ?_, ?_⟩
      · rw [setAll, List.foldlM_cons, hnext]
        exact hafter
      · intro header hheader
        cases hheader with
        | head =>
            have htaken : headerValueOf first.2 = some ⟨normalizeValue first.2,
                normalizeValue_normalizeValue first.2, hvalue first List.mem_cons_self⟩ :=
              headerValueOf_eq_some_iff.mpr ⟨hvalue first List.mem_cons_self, rfl⟩
            rw [hothers first.1 hdistinct.1, get_set hnext, if_pos rfl, htaken]
            rfl
        | tail _ hlater => exact hset header hlater
      · intro other hother
        rw [List.map_cons, List.mem_cons, not_or] at hother
        rw [hothers other hother.2, get_set hnext, if_neg hother.1]

/-- Headers that were all set had values that are taken. -/
theorem fieldValues_of_setAll {credentials : List (Text × Text)}
    (hname : ∀ header ∈ credentials, header.1 ≠ [] ∧ header.1.all isTokenUnit = true)
    (h : headers.setAll credentials = some after) :
    ∀ header ∈ credentials, isFieldValue (normalizeValue header.2) = true := by
  induction credentials generalizing headers with
  | nil =>
      intro header hheader
      cases hheader
  | cons first rest ih =>
      rw [setAll, List.foldlM_cons] at h
      obtain ⟨next, hnext, hrest⟩ := Option.bind_eq_some_iff.mp h
      intro header hheader
      cases hheader with
      | head => exact (exists_set_iff headers (hname first List.mem_cons_self)).mp ⟨next, hnext⟩
      | tail _ hlater =>
          exact ih (fun later hmore => hname later (List.mem_cons_of_mem _ hmore)) hrest header hlater

/-- A header of the request that is sent on is taken, and leaves the headers of other names. -/
theorem setPresent_spec (headers : Headers) {name : Text}
    (hname : name ≠ [] ∧ name.all isTokenUnit = true) (value : Option HeaderValue) :
    ∃ after, headers.setPresent name value = some after ∧
      ∀ other, toLowerCase other ≠ toLowerCase name → after.get other = headers.get other := by
  cases value with
  | none => exact ⟨headers, rfl, fun other _ => rfl⟩
  | some value =>
      rw [setPresent]
      split_ifs with hempty
      · exact ⟨headers, rfl, fun other _ => rfl⟩
      · have htaken : isFieldValue (normalizeValue value.text) = true := by
          rw [value.normal]
          exact value.octets
        obtain ⟨after, hafter⟩ := (exists_set_iff headers hname).mpr htaken
        refine ⟨after, hafter, ?_⟩
        intro other hother
        rw [get_set hafter, if_neg hother]

end Headers

/-- The headers before the credentials: they are set, and the host is the authority. -/
theorem exists_before (input : Headers) (authority : HeaderValue) :
    ∃ before : Headers, before.get (literal "host") = some authority ∧
      ∀ credentials, buildInternalPlaygroundHeaders input authority.text credentials =
        before.setAll credentials := by
  have htaken : isFieldValue (normalizeValue authority.text) = true := by
    rw [authority.normal]
    exact authority.octets
  have hauthority : headerValueOf authority.text = some authority :=
    headerValueOf_eq_some_iff.mpr ⟨htaken, authority.normal.symm⟩
  have hhost : literal "host" ≠ [] ∧ (literal "host").all isTokenUnit = true := by decide
  have haccept : literal "accept" ≠ [] ∧ (literal "accept").all isTokenUnit = true := by decide
  have htype : literal "content-type" ≠ [] ∧ (literal "content-type").all isTokenUnit = true := by
    decide
  obtain ⟨first, hfirst⟩ := (Headers.exists_set_iff [] hhost).mpr htaken
  obtain ⟨second, hsecond, hkept⟩ :=
    Headers.setPresent_spec first haccept (input.get (literal "accept"))
  obtain ⟨third, hthird, hleft⟩ :=
    Headers.setPresent_spec second htype (input.get (literal "content-type"))
  refine ⟨third, ?_, ?_⟩
  · rw [hleft _ (by decide), hkept _ (by decide), Headers.get_set hfirst, if_pos rfl, hauthority]
  · intro credentials
    rw [buildInternalPlaygroundHeaders, hfirst]
    simp only [Option.bind_eq_bind, Option.bind_some, hsecond, hthird, Headers.setAll]

/-! ## The hop -/

/-- What the hop should leave of an envelope: it is unpacked as it was packed, it would be packed
again to the same, and its headers are on the request to the agent. -/
structure SurvivesHop (numberOf : Text → Option NumberText) (input : Headers)
    (authority : HeaderValue) (envelope : AgentAuthEnvelope) : Prop where
  packed : ∀ text, encodeAgentAuthEnvelope envelope = some text →
    decodeAgentAuthEnvelope numberOf text = some envelope
  unpacked : ∀ text, decodeAgentAuthEnvelope numberOf text = some envelope →
    ∃ again, encodeAgentAuthEnvelope envelope = some again ∧
      decodeAgentAuthEnvelope numberOf again = some envelope
  sent : ∃ headers, buildInternalPlaygroundHeaders input authority.text envelope.headers =
      some headers ∧ headers.get (literal "host") = some authority ∧
    ∀ header ∈ envelope.headers,
      (headers.get header.1).map HeaderValue.text = some (normalizeValue header.2)

/-- **The hop.** An envelope that either side accepts survives the hop exactly if the values of its
headers are strings of octets. -/
theorem survivesHop_iff {numberOf : Text → Option NumberText} (hone : numberOf one.text = some one)
    (input : Headers) (authority : HeaderValue) (envelope : AgentAuthEnvelope)
    (h : (∃ text, encodeAgentAuthEnvelope envelope = some text) ∨
      ∃ text, decodeAgentAuthEnvelope numberOf text = some envelope) :
    SurvivesHop numberOf input authority envelope ↔
      ∀ header ∈ envelope.headers, IsByteString header.2 := by
  have haccepted : Accepted envelope := by
    rcases h with ⟨text, htext⟩ | ⟨text, htext⟩
    · exact (encode_eq_some_iff.mp htext).1
    · exact accepted_of_decode htext
  have hname : ∀ header ∈ envelope.headers, header.1 ≠ [] ∧ header.1.all isTokenUnit = true :=
    fun header hheader => token_of_nameAllowed (haccepted.header header hheader).1
  obtain ⟨before, hhost, hbuild⟩ := exists_before input authority
  constructor
  · intro hsurvives header hheader
    obtain ⟨headers, hheaders, _⟩ := hsurvives.sent
    rw [hbuild] at hheaders
    have hvalue := Headers.fieldValues_of_setAll hname hheaders header hheader
    exact (isFieldValue_iff (haccepted.header header hheader).2).mp hvalue
  · intro hbytes
    have hdistinct : (envelope.headers.map fun header => toLowerCase header.1).Nodup := by
      have hheaders := haccepted.headers
      simp only [headersAllowed, Bool.and_eq_true, decide_eq_true_eq] at hheaders
      exact hheaders.2
    obtain ⟨after, hafter, hset, hothers⟩ := Headers.setAll_of_fieldValues hname
      (fun header hheader => (isFieldValue_iff (haccepted.header header hheader).2).mpr
        (hbytes header hheader)) hdistinct before
    have hencode := encode_eq_some_iff.mpr ⟨haccepted, rfl⟩
    refine ⟨fun text htext => decode_of_encode hone htext,
      fun text _ => ⟨_, hencode, decode_of_encode hone hencode⟩, after, ?_, ?_, hset⟩
    · rw [hbuild, hafter]
    · rw [hothers _ ?_, hhost]
      intro hmem
      obtain ⟨header, hheader, hlower⟩ := List.mem_map.mp hmem
      exact lower_ne_host (haccepted.header header hheader).1 hlower

/-- A literal that is printed as it is written. -/
def asWritten (text : Text) : Option NumberText :=
  if h : text ≠ [] ∧ text.all isNumberUnit = true then
    some ⟨text, h.1, List.all_eq_true.mp h.2⟩
  else none

/-- The authority of a local agent. -/
def localhost : HeaderValue := ⟨literal "localhost:3000", by decide, by decide⟩

/-- An envelope with a bearer token. -/
def bearer (token : Text) : AgentAuthEnvelope where
  authority := .loopback
  headers := [(literal "authorization", literal "Bearer " ++ token)]

theorem survivesHop_bearer :
    SurvivesHop asWritten [] localhost (bearer (literal "s3cret")) ↔
      ∀ header ∈ (bearer (literal "s3cret")).headers, IsByteString header.2 :=
  survivesHop_iff rfl [] localhost (bearer (literal "s3cret"))
    (.inl ⟨_, encode_eq_some_iff.mpr ⟨⟨by decide +kernel, by decide +kernel⟩, rfl⟩⟩)

/-- A token with a letter outside Latin-1 is packed, and no request can be built with it. -/
theorem bearer_not_sent :
    (∃ text, encodeAgentAuthEnvelope (bearer [0x101]) = some text) ∧
      buildInternalPlaygroundHeaders [] localhost.text (bearer [0x101]).headers = none := by
  refine ⟨⟨_, encode_eq_some_iff.mpr ⟨⟨by decide +kernel, by decide +kernel⟩, rfl⟩⟩, ?_⟩
  rfl

end Eveland.AgentEnvelopes
