import Waybill.Proofs.Cutting
import Waybill.Proofs.Hosts
import Waybill.Proofs.PlainPaths
import Waybill.Proofs.Results

/-!
# Authorities read back

What a URL says of where it is, its scheme and its authority, is read from its own text as it
stands, whatever text the URL was read from (`Settled.parse_base`). Reading leaves a scheme in
lower case, credentials without a mark, a host in one of its forms and a port that the scheme does
not imply (`settled_of_parse`). From such parts an authority is put together that is cut where they
meet: `readAuthority_eq_ok_iff` says once which cuts there are.
-/

namespace Waybill.Url

open Text Percent Address

variable {scheme : String} {ended : Bool} {cs rest : List Char} {c : Char}

/-! ## The cuts of an authority -/

/-- The text of the credentials, if there are any, and what stands behind them. -/
def cutCredentials (cs : List Char) : Option (List Char) × List Char :=
  match cutAtLast? '@' cs with
  | none => (none, cs)
  | some (before, after) => (some before, after)

/-- The port of a text that starts with its colon, and what stands behind it. -/
def readPortText (scheme : String) : List Char → Except Error (Option Nat × List Char)
  | [] => .ok (none, [])
  | _ :: digits => readPort scheme digits

/-- The authority is read from the text by cutting it into these parts. -/
structure Authority.ReadFrom (scheme : String) (ended : Bool) (cs : List Char)
    (given : Option (List Char)) (hostText portText : List Char) (a : Authority) : Prop where
  cut : ∃ hostAndPort, cutCredentials cs = (given, hostAndPort) ∧
    hostSpan false hostAndPort = (hostText, portText) ∧
    ¬(given = some [] ∧ hostAndPort = [] ∧ !ended)
  credentials : readCredentials (given.getD []) = (a.username, a.password)
  named : ¬(isSpecial scheme ∧ hostText = [])
  host : readHost (isSpecial scheme) hostText = .ok a.host
  port : readPortText scheme portText = .ok (a.port, a.rest)
  hosted : a.host = "" → portText = [] ∧ a.username = "" ∧ a.password = ""

/-- An authority that is read was cut into parts. -/
theorem exists_readFrom_of_readAuthority {a : Authority}
    (h : readAuthority scheme ended cs = .ok a) :
    ∃ given hostText portText, a.ReadFrom scheme ended cs given hostText portText := by
  unfold readAuthority at h
  extract_lets special at h
  split at h
  next given hostAndPort hcut =>
  extract_lets afterGiven at h
  split at h
  · cases h
  next hended =>
  unfold afterGiven at h
  split at h
  next username password hcredentials =>
  split at h
  next hostText portText hspan =>
  extract_lets afterHostText at h
  split at h
  · cases h
  next hnamed =>
  unfold afterHostText at h
  obtain ⟨host, hhost, h⟩ := bind_eq_ok_iff.1 h
  extract_lets afterPort afterHost at h
  split at h
  · cases h
  next hported =>
  unfold afterHost at h
  -- a port is read only if something stands behind the host, if only a colon
  have hport : ∃ port rest, readPortText scheme portText = .ok (port, rest) ∧
      afterPort (port, rest) = .ok a := by
    rcases portText with _ | ⟨_, digits⟩
    · exact ⟨none, [], rfl, h⟩
    · obtain ⟨⟨port, rest⟩, hport, h⟩ := bind_eq_ok_iff.1 h
      exact ⟨port, rest, hport, h⟩
  obtain ⟨port, rest, hport, h⟩ := hport
  unfold afterPort at h
  dsimp only at h
  split at h
  · cases h
  next hhosted =>
  cases h
  refine ⟨given, hostText, portText, ⟨hostAndPort, hcut, hspan, hended⟩, hcredentials, hnamed,
    hhost, hport, fun hempty => ?_⟩
  simp_all

/-- Parts that are cut from a text are what is read from it. -/
theorem Authority.ReadFrom.readAuthority_eq {given : Option (List Char)}
    {hostText portText : List Char} {a : Authority}
    (h : a.ReadFrom scheme ended cs given hostText portText) :
    readAuthority scheme ended cs = .ok a := by
  obtain ⟨⟨hostAndPort, hcut, hspan, hended⟩, hcredentials, hnamed, hhost, hport, hhosted⟩ := h
  unfold readAuthority
  extract_lets special
  split
  next given' hostAndPort' hcut' =>
  cases hcut.symm.trans hcut'
  extract_lets afterGiven
  rw [if_neg hended]
  unfold afterGiven
  split
  next username password hcredentials' =>
  cases hcredentials.symm.trans hcredentials'
  split
  next hostText' portText' hspan' =>
  cases hspan.symm.trans hspan'
  extract_lets afterHostText
  rw [if_neg hnamed]
  unfold afterHostText
  refine bind_eq_ok_iff.2 ⟨a.host, hhost, ?_⟩
  extract_lets afterPort afterHost
  have hported : ¬(a.host = "" ∧ portText ≠ []) := fun h => h.2 (hhosted h.1).1
  have hend : afterPort (a.port, a.rest) = .ok a := by
    unfold afterPort
    refine if_neg ?_
    rintro ⟨hempty, hne⟩
    simp_all
  rw [if_neg hported]
  unfold afterHost
  rcases portText with _ | ⟨_, digits⟩
  · exact bind_eq_ok_iff.2 ⟨_, hport, hend⟩
  · exact bind_eq_ok_iff.2 ⟨_, hport, hend⟩

/-- **An authority is read just if its text is cut into its parts.** -/
theorem readAuthority_eq_ok_iff {a : Authority} : readAuthority scheme ended cs = .ok a ↔
    ∃ given hostText portText, a.ReadFrom scheme ended cs given hostText portText := by
  constructor
  · exact exists_readFrom_of_readAuthority
  · rintro ⟨given, hostText, portText, h⟩
    exact h.readAuthority_eq

/-! ## What reading leaves -/

/-- The text of a scheme. -/
structure SchemeText (cs : List Char) : Prop where
  alpha : cs.head?.any Char.isAlpha = true
  chars : ∀ c ∈ cs, isSchemeChar c = true
  lower : ∀ c ∈ cs, c.toLower = c

/-- A URL whose scheme and authority are written as reading leaves them. -/
structure Settled (u : Url) : Prop where
  scheme : SchemeText u.scheme.toList
  username : ∀ c ∈ u.username.toList, inCredentials c = false
  password : ∀ c ∈ u.password.toList, inCredentials c = false
  /-- Only a file may lack a host where the scheme says what a host is. -/
  host : HostText (isSpecial u.scheme) (u.host.getD "").toList ∨
    u.scheme = "file" ∧ u.host.getD "" = ""
  port : ∀ port ∈ u.port, port ≤ 65535 ∧ defaultPort? u.scheme ≠ some port
  /-- Without a host there are neither credentials nor a port. -/
  hosted : u.host.getD "" = "" → u.username = "" ∧ u.password = "" ∧ u.port = none
  file : u.scheme = "file" →
    u.username = "" ∧ u.password = "" ∧ u.port = none ∧ u.host.getD "" ≠ "localhost"

theorem toNat_lt_of_isSchemeChar (h : isSchemeChar c = true) : c.toNat < 128 := by
  simp only [isSchemeChar, Char.isAlphanum, Bool.or_eq_true, beq_iff_eq] at h
  rcases h with (((h | h) | rfl) | rfl) | rfl
  · exact toNat_lt_of_isAlpha h
  · exact toNat_lt_of_isDigit h
  all_goals decide

/-- A scheme that is read starts with a letter and is in lower case. -/
theorem schemeText_of_readScheme? (h : readScheme? cs = some (scheme, rest)) :
    SchemeText scheme.toList := by
  unfold readScheme? at h
  obtain ⟨⟨before, after⟩, -, h⟩ := Option.bind_eq_some_iff.1 h
  obtain ⟨hname, h⟩ := guard_bind_eq_some_iff.1 h
  cases h
  rw [Bool.and_eq_true] at hname
  rw [String.toList_ofList]
  have hlower : ∀ c, isSchemeChar c = true → isSchemeChar c.toLower = true ∧
      (c.isAlpha = true → c.toLower.isAlpha = true) := fun c hc =>
    forall_ascii (P := fun c => isSchemeChar c = true → isSchemeChar c.toLower = true ∧
      (c.isAlpha = true → c.toLower.isAlpha = true)) (by decide) (toNat_lt_of_isSchemeChar hc) hc
  have hchars := List.all_eq_true.1 hname.2
  constructor
  case alpha =>
    rcases hcs : withoutIgnored before with _ | ⟨c, r⟩
    · simp [hcs] at hname
    · rw [hcs] at hname hchars
      exact (hlower c (hchars c List.mem_cons_self)).2 hname.1
  case chars =>
    intro c hc
    obtain ⟨d, hd, rfl⟩ := List.mem_map.1 hc
    exact (hlower d (hchars d hd)).1
  case lower =>
    intro c hc
    obtain ⟨d, -, rfl⟩ := List.mem_map.1 hc
    exact toLower_toLower d

/-- **What is encoded in a user name or a password does not stand there any more.** -/
theorem inCredentials_of_mem_encode :
    ∀ c ∈ encode inCredentials cs, inCredentials c = false :=
  forall_mem_encode (by decide) (by decide) fun _ _ hkept => hkept

/-- A port that is read fits sixteen bits and is not the one that its scheme implies. -/
theorem le_of_readPort {port : Option Nat} (h : readPort scheme cs = .ok (port, rest)) :
    ∀ p ∈ port, p ≤ 65535 ∧ defaultPort? scheme ≠ some p := by
  unfold readPort at h
  split at h
  next digits rest' _ =>
  split at h
  · dsimp only at h
    split at h
    · cases h
    next hle =>
    split at h
    · cases h
      simp
    · next hkept =>
      cases h
      rintro _ ⟨⟩
      exact ⟨Nat.le_of_not_lt hle, fun hdefault => hkept (.inr hdefault)⟩
  · cases h

theorem le_of_readPortText {port : Option Nat} (h : readPortText scheme cs = .ok (port, rest)) :
    ∀ p ∈ port, p ≤ 65535 ∧ defaultPort? scheme ≠ some p := by
  rcases cs with _ | ⟨_, digits⟩
  · obtain ⟨rfl, -⟩ := Prod.mk.inj (Except.ok.inj h)
    simp
  · exact le_of_readPort h

/-- A URL whose authority was read from some text is settled there. -/
theorem settled_of_readFrom {given : Option (List Char)} {hostText portText : List Char}
    {a : Authority} {u : Url} (ha : a.ReadFrom scheme ended cs given hostText portText)
    (hscheme : SchemeText scheme.toList) (hfile : scheme ≠ "file") (hu : u.scheme = scheme)
    (husername : u.username = a.username) (hpassword : u.password = a.password)
    (hhost : u.host = some a.host) (hport : u.port = a.port) : u.Settled := by
  obtain ⟨hname, hword⟩ := Prod.mk.inj ha.credentials
  constructor
  case scheme => rwa [hu]
  case username =>
    rw [husername, ← hname, String.toList_ofList]
    exact inCredentials_of_mem_encode
  case password =>
    rw [hpassword, ← hword, String.toList_ofList]
    exact inCredentials_of_mem_encode
  case host =>
    rw [hu, hhost]
    exact .inl (hostText_of_readHost ha.host)
  case port =>
    rw [hu, hport]
    exact le_of_readPortText ha.port
  case hosted =>
    rw [hhost, husername, hpassword, hport]
    intro hempty
    obtain ⟨rfl, hname, hword⟩ := ha.hosted hempty
    exact ⟨hname, hword, (Prod.mk.inj (Except.ok.inj ha.port)).1.symm⟩
  case file => exact fun heq => absurd (hu ▸ heq) hfile

/-- Whatever is read under an authority is settled. -/
theorem yields_settled_readHierarchical (hscheme : SchemeText scheme.toList)
    (hfile : scheme ≠ "file") (ended : Bool) (cs : List Char) :
    Yields Settled (readHierarchical scheme ended cs) := by
  unfold readHierarchical
  extract_lets special
  split
  next text after _ =>
  refine .bind (fun a ha => readAuthority_eq_ok_iff.1 ha) ?_
  rintro a ⟨given, hostText, portText, ha⟩
  exact .pure (settled_of_readFrom ha hscheme hfile rfl rfl rfl rfl rfl)

/-- A host as the URL of a file has it: the local host is not written. -/
structure FileHost (host : String) : Prop where
  text : host = "" ∨ HostText true host.toList
  notLocal : host ≠ "localhost"

theorem fileHost_empty : FileHost "" := ⟨.inl rfl, by decide⟩

theorem yields_fileHost_readFileHost (cs : List Char) :
    Yields (fun x : String × List Char => FileHost x.1) (readFileHost cs) := by
  unfold readFileHost
  split
  · exact .pure fileHost_empty
  split
  · exact .pure fileHost_empty
  split
  next before after _ =>
  extract_lets name
  split
  · exact .pure fileHost_empty
  split
  · exact .pure fileHost_empty
  refine .bind (fun host hhost => hostText_of_readHost hhost) fun host hhost => .pure ?_
  split
  · exact fileHost_empty
  · next hlocal => exact ⟨.inr hhost, hlocal⟩

theorem schemeText_file : SchemeText "file".toList where
  alpha := rfl
  chars := by simp [isSchemeChar]
  lower := by simp

theorem yields_settled_readFile (cs : List Char) : Yields Settled (readFile cs) := by
  unfold readFile
  refine .bind (yields_fileHost_readFileHost cs) fun x hhost => ?_
  split
  next host pathText =>
  extract_lets course host'
  have hhost' : FileHost host' := by
    unfold host'
    split
    · exact fileHost_empty
    · exact hhost
  refine .pure ?_
  constructor
  case scheme => exact schemeText_file
  case username => exact List.forall_mem_nil _
  case password => exact List.forall_mem_nil _
  case host => exact hhost'.text.elim (fun hempty => .inr ⟨rfl, hempty⟩) .inl
  case port => simp
  case hosted => exact fun _ => ⟨rfl, rfl, rfl⟩
  case file => exact fun _ => ⟨rfl, rfl, rfl, hhost'.notLocal⟩

/-- A URL without an authority has none of its parts. -/
theorem settled_readPlain (hscheme : SchemeText scheme.toList) (hspecial : isSpecial scheme = false)
    (cs : List Char) : (readPlain scheme cs).Settled := by
  have hfile : scheme ≠ "file" := by
    rintro rfl
    cases hspecial
  have hhost : HostText (isSpecial scheme) [] := by
    rw [hspecial]
    exact .given (List.forall_mem_nil _)
  constructor
  case scheme => exact hscheme
  case username => exact List.forall_mem_nil _
  case password => exact List.forall_mem_nil _
  case host => exact .inl hhost
  case port => simp [readPlain]
  case hosted => exact fun _ => ⟨rfl, rfl, rfl⟩
  case file => exact fun heq => absurd heq hfile

/-- Whatever follows the scheme, what is read is settled. -/
theorem yields_settled_readBody (hscheme : SchemeText scheme.toList) (ended : Bool)
    (cs : List Char) : Yields Settled (readBody scheme ended cs) := by
  unfold readBody
  split
  · exact yields_settled_readFile cs
  next hfile =>
  dsimp only
  split
  · exact yields_settled_readHierarchical hscheme hfile ended _
  next hspecial =>
  split
  · exact yields_settled_readHierarchical hscheme hfile ended _
  · exact .pure (settled_readPlain hscheme (Bool.eq_false_iff.2 hspecial) _)

/-- **A URL that was read is settled**, whatever its text. -/
theorem settled_of_parse {s : String} {u : Url} (h : parse s = .ok u) : u.Settled := by
  unfold parse at h
  split at h
  · cases h
  next scheme rest hscheme =>
  split at h
  next rest' fragment _ =>
  split at h
  next body query _ =>
  obtain ⟨body', hbody, h⟩ := bind_eq_ok_iff.1 h
  cases h
  obtain ⟨hscheme, husername, hpassword, hhost, hport, hhosted, hfile⟩ :=
    yields_settled_readBody (schemeText_of_readScheme? hscheme) _ _ _ hbody
  exact ⟨hscheme, husername, hpassword, hhost, hport, hhosted, hfile⟩

/-! ## What an authority is written as -/

/-- The text of the credentials, if there are any. -/
def credentialsText (username password : String) : Option (List Char) :=
  if username = "" ∧ password = "" then none
  else some (username.toList ++ (if password = "" then [] else ':' :: password.toList))

/-- What stands before a host: the credentials with their mark, if there are any. -/
def beforeHost : Option (List Char) → List Char
  | none => []
  | some cs => cs ++ ['@']

/-- The text of the port behind its colon, if there is one. -/
def portText : Option Nat → List Char
  | none => []
  | some port => ':' :: Nat.toDigits 10 port

theorem toList_toString (n : Nat) : (toString n).toList = Nat.toDigits 10 n := Nat.toList_repr

/-- What is written before the host is the credentials and their mark, or nothing. -/
theorem toList_credentials (u : Url) :
    u.credentials.toList = beforeHost (credentialsText u.username u.password) := by
  unfold credentials credentialsText
  split
  · rfl
  · rw [beforeHost, String.toList_append, String.toList_append]
    split
    · rfl
    · rw [String.toList_append]
      rfl

/-! ## Reading it back -/

/-- The end of the host is seen: a colon stands there, or nothing. -/
theorem head?_portText (port : Option Nat) : ∀ c ∈ (portText port).head?, c = ':' := by
  rcases port with _ | port
  · simp [portText]
  · rintro _ ⟨⟩
    rfl

/-- What holds of the colon and of every decimal digit holds throughout the text of a port. -/
theorem forall_mem_portText {P : Char → Prop} (hcolon : P ':')
    (h : ∀ d < 10, P (Nat.digitChar d)) (port : Option Nat) : ∀ c ∈ portText port, P c := by
  rcases port with _ | port
  · exact List.forall_mem_nil _
  · exact List.forall_mem_cons.2 ⟨hcolon, forall_mem_toDigits (by decide) h⟩

/-- A written port is read as itself, and one that the scheme implies is never written. -/
theorem readPortText_portText {port : Option Nat}
    (h : ∀ p ∈ port, p ≤ 65535 ∧ defaultPort? scheme ≠ some p) :
    readPortText scheme (portText port) = .ok (port, []) := by
  rcases port with _ | port
  · rfl
  obtain ⟨hle, hdefault⟩ := h port rfl
  have hdigits : ∀ c ∈ Nat.toDigits 10 port, (c != '\\') = true :=
    forall_mem_toDigits (by decide) (by decide)
  have hall : (Nat.toDigits 10 port).all Char.isDigit = true :=
    List.all_eq_true.2 fun c hc => Nat.isDigit_of_mem_toDigits (by decide) (by decide) hc
  have hvalue : (Nat.toDigits 10 port).foldl (fun n c => 10 * n + (c.toNat - 48)) 0 = port := by
    have hread := Nat.ofDigitChars_ten_toDigits (n := port)
    rwa [Nat.ofDigitChars_eq_foldl] at hread
  have hkept : ¬(Nat.toDigits 10 port = [] ∨ defaultPort? scheme = some port) := by
    rintro (hnil | heq)
    · exact Nat.toDigits_ne_nil hnil
    · exact hdefault heq
  rw [portText, readPortText, readPort, List.span_eq_takeWhile_dropWhile,
    List.takeWhile_eq_self_iff.2 hdigits, List.dropWhile_eq_nil_iff.2 hdigits]
  dsimp only
  rw [if_pos hall, hvalue, if_neg (Nat.not_lt.2 hle), if_neg hkept]

/-- The credentials end at the last mark, and none stands in what follows them. -/
theorem cutCredentials_append (given : Option (List Char)) (hrest : '@' ∉ rest) :
    cutCredentials (beforeHost given ++ rest) = (given, rest) := by
  unfold cutCredentials
  rcases given with _ | cs
  · rw [beforeHost, List.nil_append, cutAtLast?_eq_none_iff.2 hrest]
  · rw [beforeHost, List.append_assoc, List.singleton_append,
      cutAtLast?_eq_some_iff.2 ⟨rfl, hrest⟩]

/-- Credentials without marks of their own are read as they were written. -/
theorem readCredentials_credentialsText {username password : String}
    (husername : ∀ c ∈ username.toList, inCredentials c = false)
    (hpassword : ∀ c ∈ password.toList, inCredentials c = false) :
    readCredentials ((credentialsText username password).getD []) = (username, password) := by
  have hcolon : ':' ∉ username.toList := fun hmem => absurd (husername _ hmem) (by decide)
  unfold credentialsText
  split
  · next hnone =>
    rw [hnone.1, hnone.2]
    rfl
  · rw [Option.getD_some]
    split
    · next hempty =>
      rw [List.append_nil, readCredentials, cutOff, cutAtFirst?_eq_none_iff.2 hcolon, hempty]
      dsimp only
      rw [encode_eq_self husername, String.ofList_toList]
      rfl
    · rw [readCredentials, cutOff, cutAtFirst?_eq_some_iff.2 ⟨rfl, hcolon⟩]
      dsimp only
      rw [encode_eq_self husername, Option.getD_some, encode_eq_self hpassword,
        String.ofList_toList, String.ofList_toList]

namespace Settled

variable {u : Url}

/-- An authority is written as its credentials, its host and its port. -/
theorem toList_authority (h : u.Settled) : u.authority.toList =
    beforeHost (credentialsText u.username u.password) ++
      ((u.host.getD "").toList ++ portText u.port) := by
  rw [← toList_credentials]
  rcases hhost : u.host with _ | host
  · obtain ⟨husername, hpassword, hport⟩ := h.hosted (by rw [hhost]; rfl)
    simp [authority, credentials, hhost, husername, hpassword, hport, portText]
  · unfold authority
    rw [hhost]
    dsimp only
    rw [String.toList_append, String.toList_append, List.append_assoc]
    rcases u.port with _ | port
    · rfl
    · rw [String.toList_append, toList_toString]
      rfl

theorem isHostChar (h : u.Settled) : ∀ c ∈ (u.host.getD "").toList, Url.isHostChar c = true := by
  rcases h.host with hhost | ⟨-, hempty⟩
  · exact hhost.isHostChar
  · rw [hempty]
    exact List.forall_mem_nil _

/-- **Whatever stands in an authority is seen and does not end it.** -/
theorem isInAuthority (h : u.Settled) : ∀ c ∈ u.authority.toList, Url.isInAuthority c = true := by
  have hencoded : ∀ c, inCredentials c = false → Url.isInAuthority c = true := fun c hc => by
    have hascii : c.toNat < 128 :=
      toNat_lt_of_inControls (by simp_all [inCredentials, inPath, inFragment])
    exact forall_ascii (P := fun c => inCredentials c = false → Url.isInAuthority c = true)
      (by decide +kernel) hascii hc
  rw [h.toList_authority]
  simp only [List.forall_mem_append]
  refine ⟨?_, fun c hc => ?_, forall_mem_portText (by decide) (by decide) u.port⟩
  · unfold credentialsText
    split
    · exact List.forall_mem_nil _
    · simp only [beforeHost, List.forall_mem_append, List.forall_mem_singleton]
      refine ⟨⟨fun c hc => hencoded c (h.username c hc), ?_⟩, rfl⟩
      split
      · exact List.forall_mem_nil _
      · exact List.forall_mem_cons.2 ⟨rfl, fun c hc => hencoded c (h.password c hc)⟩
  · exact (Bool.and_eq_true_iff.1 (h.isHostChar c hc)).1

/-- **An authority is read from its text as it is.** -/
theorem readAuthority_authority (h : u.Settled) (hfile : u.scheme ≠ "file") :
    readAuthority u.scheme true u.authority.toList =
      .ok ⟨u.username, u.password, u.host.getD "", u.port, []⟩ := by
  have hhost : HostText (isSpecial u.scheme) (u.host.getD "").toList :=
    h.host.resolve_right fun hnone => hfile hnone.1
  have hmark : '@' ∉ (u.host.getD "").toList ++ portText u.port := by
    intro hmem
    rcases List.mem_append.1 hmem with hmem | hmem
    · exact absurd (h.isHostChar '@' hmem) (by decide)
    · exact forall_mem_portText (P := (· ≠ '@')) (by decide) (by decide) u.port '@' hmem rfl
  refine readAuthority_eq_ok_iff.2
    ⟨credentialsText u.username u.password, (u.host.getD "").toList, portText u.port, ?_⟩
  constructor
  case cut =>
    refine ⟨_, ?_, hhost.hostSpan_append (head?_portText u.port), by simp⟩
    rw [h.toList_authority, cutCredentials_append _ hmark]
  case credentials => exact readCredentials_credentialsText h.username h.password
  case named =>
    rintro ⟨hspecial, hnil⟩
    rw [hspecial] at hhost
    exact hhost.ne_nil hnil
  case host =>
    rw [hhost.readHost_eq, String.ofList_toList]
  case port => exact readPortText_portText h.port
  case hosted =>
    intro hempty
    obtain ⟨husername, hpassword, hport⟩ := h.hosted hempty
    exact ⟨by rw [hport]; rfl, husername, hpassword⟩

end Settled

/-! ## Scheme and authority alone -/

/-- The URL of scheme and authority alone. -/
def base (u : Url) : Url :=
  { u with
    host := some (u.host.getD "")
    path := .rooted (if isSpecial u.scheme then [""] else [])
    query := none
    fragment := none }

/-- A scheme is read up to its colon, as it stands. -/
theorem SchemeText.readScheme?_eq (h : SchemeText scheme.toList) (rest : List Char) :
    readScheme? (scheme.toList ++ ':' :: rest) = some (scheme, rest) := by
  have hkept : ∀ c ∈ scheme.toList, c ≠ ':' ∧ isIgnored c = false := fun c hc =>
    forall_ascii (P := fun c => isSchemeChar c = true → c ≠ ':' ∧ isIgnored c = false) (by decide)
      (toNat_lt_of_isSchemeChar (h.chars c hc)) (h.chars c hc)
  have hcolon : ':' ∉ scheme.toList := fun hmem => (hkept ':' hmem).1 rfl
  unfold readScheme?
  rw [cutAtFirst?_eq_some_iff.2 ⟨rfl, hcolon⟩]
  dsimp only [Option.bind_eq_bind, Option.bind_some]
  rw [withoutIgnored_eq_self fun c hc => (hkept c hc).2, List.map_congr_left h.lower, List.map_id',
    String.ofList_toList]
  refine guard_bind_eq_some_iff.2 ⟨?_, rfl⟩
  rw [h.alpha, List.all_eq_true.2 h.chars]
  rfl

theorem cutOff_eq (h : c ∉ cs) : cutOff c cs = (cs, none) := by
  rw [cutOff, cutAtFirst?_eq_none_iff.2 h]

/-- A character above the space is neither trimmed nor passed over. -/
theorem isIgnored_of_lt (h : 0x20 < c.toNat) : isIgnored c = false := by
  have hne : c ≠ '\t' ∧ c ≠ '\n' ∧ c ≠ '\r' := by
    refine ⟨?_, ?_, ?_⟩ <;> rintro rfl <;> exact absurd h (by decide)
  simp [isIgnored, hne]

namespace Settled

variable {u : Url}

/-- A character that has no place in an authority is not in one. -/
theorem notMem_authority (h : u.Settled) (hc : Url.isInAuthority c = false) :
    c ∉ u.authority.toList := by
  intro hmem
  rw [h.isInAuthority c hmem] at hc
  cases hc

/-- No slash stands in an authority, so that the path begins behind it. -/
theorem isSlash_eq_false (h : u.Settled) (special : Bool) :
    ∀ c ∈ u.authority.toList, isSlash special c = false := by
  intro c hc
  have hne : c ≠ '/' ∧ c ≠ '\\' := by
    constructor <;> rintro rfl <;> exact h.notMem_authority rfl hc
  simp [isSlash, hne]

/-- A settled authority is all of what is read as one. -/
theorem span_authority (h : u.Settled) (special : Bool) :
    u.authority.toList.span (fun c => !isSlash special c) = (u.authority.toList, []) := by
  have hall : ∀ c ∈ u.authority.toList, (!isSlash special c) = true := fun c hc => by
    rw [h.isSlash_eq_false special c hc, Bool.not_false]
  rw [List.span_eq_takeWhile_dropWhile, List.takeWhile_eq_self_iff.2 hall,
    List.dropWhile_eq_nil_iff.2 hall]

theorem lt_toNat_of_mem (h : u.Settled) : ∀ c ∈ u.authority.toList, 0x20 < c.toNat :=
  fun c hc => (seen_of_isInAuthority (h.isInAuthority c hc)).1

/-- An authority under a scheme is read as itself. -/
theorem readHierarchical_authority (h : u.Settled) (hfile : u.scheme ≠ "file") :
    readHierarchical u.scheme true u.authority.toList = .ok u.base := by
  unfold readHierarchical
  dsimp only
  rw [h.span_authority]
  refine bind_eq_ok_iff.2 ⟨_, h.readAuthority_authority hfile, ?_⟩
  unfold base
  rcases isSpecial u.scheme with _ | _
  · rfl
  · rfl

/-- The authority of a file is its host. -/
theorem authority_of_file (h : u.Settled) (hfile : u.scheme = "file") :
    u.authority.toList = (u.host.getD "").toList := by
  obtain ⟨husername, hpassword, hport, -⟩ := h.file hfile
  rw [h.toList_authority, husername, hpassword, hport]
  simp [credentialsText, beforeHost, portText]

theorem readFileHost_authority (h : u.Settled) (hfile : u.scheme = "file") :
    readFileHost ('/' :: '/' :: u.authority.toList) = .ok (u.host.getD "", []) := by
  have hslash : ∀ cs, afterSlash? true ('/' :: cs) = some cs := fun cs => rfl
  have hkept : withoutIgnored u.authority.toList = u.authority.toList :=
    withoutIgnored_eq_self fun c hc => isIgnored_of_lt (h.lt_toNat_of_mem c hc)
  unfold readFileHost
  rw [hslash]
  dsimp only
  rw [hslash]
  dsimp only
  rw [h.span_authority]
  dsimp only
  rw [hkept, h.authority_of_file hfile]
  rcases h.host with hhost | ⟨-, hempty⟩
  · have hspecial : isSpecial u.scheme = true := by rw [hfile]; rfl
    rw [hspecial] at hhost
    rw [if_neg (by simp [hhost.isDriveLetter_eq_false]), if_neg hhost.ne_nil]
    refine bind_eq_ok_iff.2 ⟨_, hhost.readHost_eq, ?_⟩
    rw [String.ofList_toList, if_neg (h.file hfile).2.2.2]
    rfl
  · rw [hempty]
    rfl

theorem readFile_authority (h : u.Settled) (hfile : u.scheme = "file") :
    readFile ('/' :: '/' :: u.authority.toList) = .ok u.base := by
  obtain ⟨husername, hpassword, hport, -⟩ := h.file hfile
  refine bind_eq_ok_iff.2 ⟨_, h.readFileHost_authority hfile, ?_⟩
  obtain ⟨scheme, username, password, host, port, path, query, fragment⟩ := u
  cases hfile
  cases husername
  cases hpassword
  cases hport
  rfl

/-- Whatever the scheme, what follows it is read as written. -/
theorem readBody_authority (h : u.Settled) :
    readBody u.scheme true ('/' :: '/' :: u.authority.toList) = .ok u.base := by
  have hkept : withoutIgnored ('/' :: '/' :: u.authority.toList) =
      '/' :: '/' :: u.authority.toList :=
    withoutIgnored_eq_self <| List.forall_mem_cons.2 ⟨rfl, List.forall_mem_cons.2
      ⟨rfl, fun c hc => isIgnored_of_lt (h.lt_toNat_of_mem c hc)⟩⟩
  have hdrop : ('/' :: '/' :: u.authority.toList).dropWhile (isSlash true) =
      u.authority.toList := by
    rw [List.dropWhile_cons_of_pos rfl, List.dropWhile_cons_of_pos rfl]
    refine List.dropWhile_eq_self_iff.2 fun hlength => ?_
    rw [h.isSlash_eq_false true _ (List.getElem_mem hlength)]
    exact Bool.false_ne_true
  unfold readBody
  split
  · next hfile => exact h.readFile_authority hfile
  next hfile =>
  dsimp only
  rw [hkept]
  split
  · rw [hdrop]
    exact h.readHierarchical_authority hfile
  · exact h.readHierarchical_authority hfile

/-- **Scheme and authority are read from their own text as they are.** -/
theorem parse_base (h : u.Settled) : parse (u.scheme ++ "://" ++ u.authority) = .ok u.base := by
  have htext : (u.scheme ++ "://" ++ u.authority).toList =
      u.scheme.toList ++ ':' :: '/' :: '/' :: u.authority.toList := by
    simp
  have hseen : ∀ c ∈ u.scheme.toList ++ ':' :: '/' :: '/' :: u.authority.toList,
      decide (c.toNat ≤ 0x20) = false := by
    have hscheme : ∀ c ∈ u.scheme.toList, decide (c.toNat ≤ 0x20) = false := fun c hc =>
      forall_ascii (P := fun c => isSchemeChar c = true → decide (c.toNat ≤ 0x20) = false)
        (by decide) (toNat_lt_of_isSchemeChar (h.scheme.chars c hc)) (h.scheme.chars c hc)
    simp only [List.forall_mem_append, List.forall_mem_cons]
    exact ⟨hscheme, rfl, rfl, rfl, fun c hc =>
      decide_eq_false (Nat.not_le.2 (h.lt_toNat_of_mem c hc))⟩
  have htrim : trimEnds (u.scheme ++ "://" ++ u.authority).toList =
      u.scheme.toList ++ ':' :: '/' :: '/' :: u.authority.toList := by
    rw [htext]
    exact strip_eq_self hseen
  have hhash : '#' ∉ '/' :: '/' :: u.authority.toList := by
    simp [h.notMem_authority (c := '#') rfl]
  have hquestion : '?' ∉ '/' :: '/' :: u.authority.toList := by
    simp [h.notMem_authority (c := '?') rfl]
  unfold parse
  rw [htrim, h.scheme.readScheme?_eq]
  dsimp only
  rw [cutOff_eq hhash]
  dsimp only
  rw [cutOff_eq hquestion]
  exact bind_eq_ok_iff.2 ⟨u.base, h.readBody_authority, rfl⟩

end Settled

end Waybill.Url
