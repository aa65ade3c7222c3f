import Eggwork.Runner.Trust

/-! What a service manager makes of the definitions that are rendered for it.

systemd cuts a command line into words, launchd takes the texts of an array. Paths go
into both, and come back as they were: into a unit only those of a plain alphabet,
into a plist any without control characters, with five characters escaped. -/
namespace Eggwork.Server.Services
open List

/-- A path by what `display` shows of it; `to_str` gives the same if it is Unicode. -/
structure OsPath where
  display : List Char
  isUnicode : Bool

def OsPath.isAbsolute (p : OsPath) : Bool := p.display.head? == some '/'

def OsPath.toStr (p : OsPath) : Option (List Char) := if p.isUnicode then some p.display else none

structure ServiceSpec where
  executable : OsPath
  args : List (List Char)
  config : Option OsPath

/-- `ServiceSpec::new` is not modelled further than by what it refuses. -/
def serviceSpecForInstall (refuses : ServiceSpec → Option String) (executable : OsPath) (config : Option OsPath) :
    Except String ServiceSpec :=
  if !executable.isAbsolute then .error "daemon executable must be absolute"
  else if config.any (!·.isAbsolute) then .error "config path must be absolute"
  else
    let args := "run".toList :: config.elim [] fun path => ["--config".toList, path.display]
    match refuses ⟨executable, args, config⟩ with
    | some error => .error error
    | none => .ok ⟨executable, args, config⟩

/-! ### systemd -/

def isLiteral (c : Char) : Bool := c.isAlphanum || ['/', '_', '-', '.', '+'].contains c

/-- The words of `ExecStart`. -/
def execWords (executable config : OsPath) : List (List Char) :=
  [executable.display, "run".toList, "--config".toList, config.display]

def unitLines (executable config : OsPath) : List (List Char) :=
  ["[Unit]", "Description=Eggwork node daemon", "After=network.target", "", "[Service]", "Type=simple"].map String.toList ++
    ("ExecStart=".toList ++ [' '].intercalate (execWords executable config)) ::
    ["Restart=on-failure", "RestartSec=2", "NoNewPrivileges=true", "", "[Install]", "WantedBy=multi-user.target", ""].map
      String.toList

def renderSystemdUnit (executable config : OsPath) : Except String (List Char) :=
  if !executable.isAbsolute || !config.isAbsolute then .error "unit paths must be absolute"
  else if !([executable, config].all fun path => path.display.all isLiteral) then
    .error "unit paths contain characters unsupported by ExecStart policy"
  else .ok (['\n'].intercalate (unitLines executable config))

/-- What follows a key, in a text that starts with it. -/
def afterKey : List Char → List Char → Option (List Char)
  | [], text => some text
  | k :: key, c :: text => if k = c then afterKey key text else none
  | _ :: _, [] => none

/-- The value of a key of a unit. -/
def unitValue (key : String) (unit : List Char) : Option (List Char) :=
  (unit.splitOn '\n').findSome? (afterKey key.toList)

/-- Quotes, escapes, specifiers, variables and separators of commands. -/
def isSpecial (c : Char) : Bool := ['"', '\'', '\\', '%', '$', ';', '\t', '\r'].contains c

/-- A command line is cut at blanks, if nothing in it is special and it has no flag in
front; whatever else systemd does is `other`. -/
def commandWords (other : List Char → List (List Char)) (line : List Char) : List (List Char) :=
  if line.any isSpecial || line.head?.any (['@', '-', ':', '+', '!', '|'].contains ·) then other line
  else (line.splitOn ' ').filter (· ≠ [])

/-! ### launchd -/

def serviceId : String := "eggwork-node"

/-- `str::replace` of one character. -/
def replace (c : Char) (text value : List Char) : List Char := value.flatMap fun x => if x = c then text else [x]

def escape (value : List Char) : List Char :=
  replace '\'' ['&', 'a', 'p', 'o', 's', ';'] (replace '"' ['&', 'q', 'u', 'o', 't', ';'] (replace '>' ['&', 'g', 't', ';']
    (replace '<' ['&', 'l', 't', ';'] (replace '&' ['&', 'a', 'm', 'p', ';'] value))))

def xml (value : List Char) : Except String (List Char) :=
  if value.any Runner.Station.isControl then .error "launchd path contains control characters" else .ok (escape value)

/-- An element of text, cut before its brackets. -/
def element (text : List Char) : List (List Char) := ["string>".toList ++ text, "/string>".toList]

/-- The text between the opening brackets. -/
def plistPieces (label : List Char) (arguments : List (List Char)) : List (List Char) :=
  ["", "?xml version=\"1.0\" encoding=\"UTF-8\"?>\n", "!DOCTYPE plist PUBLIC \"-//Apple//DTD PLIST 1.0//EN\" \"http://www.apple.com/DTDs/PropertyList-1.0.dtd\">\n",
    "plist version=\"1.0\">", "dict>", "key>Label", "/key>"].map String.toList ++ element label ++
    ["key>ProgramArguments", "/key>"].map String.toList ++
    ("array>".toList :: arguments.flatMap element ++ ["/array>", "/dict>", "/plist>\n"].map String.toList)

def renderLaunchdPlist (label : List Char) (executable config : OsPath) : Except String (List Char) :=
  if label ≠ serviceId.toList ∨ !executable.isAbsolute ∨ !config.isAbsolute then
    .error "launchd identity and paths are invalid"
  else match executable.toStr, config.toStr with
    | none, _ => .error "launchd executable path is not UTF-8"
    | some _, none => .error "launchd config path is not UTF-8"
    | some executable, some config =>
      return ['<'].intercalate (plistPieces (← xml label)
        [← xml executable, "run".toList, "--config".toList, ← xml config])

/-- The character of an entity, by its name. -/
def entity : List Char → List Char
  | ['a', 'm', 'p'] => ['&']
  | ['l', 't'] => ['<']
  | ['g', 't'] => ['>']
  | ['q', 'u', 'o', 't'] => ['"']
  | ['a', 'p', 'o', 's'] => ['\'']
  | name => '&' :: name ++ [';']

/-- The text with its entities replaced, from inside the name of one or from outside. -/
def unescapeFrom : Option (List Char) → List Char → List Char
  | _, [] => []
  | none, c :: rest => if c = '&' then unescapeFrom (some []) rest else c :: unescapeFrom none rest
  | some name, c :: rest =>
    if c = ';' then entity name ++ unescapeFrom none rest else unescapeFrom (some (name ++ [c])) rest

def unescape : List Char → List Char := unescapeFrom none

/-- The texts of the elements of the array. -/
def programArguments (plist : List Char) : List (List Char) :=
  (((plist.splitOn '<').dropWhile (· ≠ "array>".toList)).takeWhile (· ≠ "/array>".toList)).filterMap fun piece =>
    (afterKey "string>".toList piece).map unescape

/-! ### What is read back -/

variable {executable config : OsPath}

theorem not_mem_literal {text : List Char} {c : Char} (h : text.all isLiteral = true) (hc : isLiteral c = false) : c ∉ text := by
  intro hm
  rw [all_eq_true.mp h c hm] at hc
  cases hc

/-- No character of the alphabet has a meaning of its own. -/
theorem not_special_of_literal {text : List Char} (h : text.all isLiteral = true) : text.any isSpecial = false := by
  have hs : ∀ c ∈ ['"', '\'', '\\', '%', '$', ';', '\t', '\r'], isLiteral c = false := by
    simp only [forall_mem_cons]
    exact ⟨rfl, rfl, rfl, rfl, rfl, rfl, rfl, rfl, nofun⟩
  rw [any_eq_false]
  exact fun c hm hc => not_mem_literal h (hs c (contains_iff_mem.mp hc)) hm

theorem ne_nil_of_isAbsolute {p : OsPath} (h : p.isAbsolute = true) : p.display ≠ [] := by
  intro hnil
  rw [OsPath.isAbsolute, hnil] at h
  cases h

theorem execLine_eq (executable config : OsPath) : [' '].intercalate (execWords executable config) =
    executable.display ++ (" run --config ".toList ++ config.display) := by
  simp [execWords, intercalate_cons_cons]

theorem commandWords_literal (other : List Char → List (List Char)) (hs : executable.isAbsolute = true)
    (hs' : config.isAbsolute = true) (he : executable.display.all isLiteral = true)
    (hc : config.display.all isLiteral = true) :
    commandWords other ([' '].intercalate (execWords executable config)) = execWords executable config := by
  have hw : ([' '].intercalate (execWords executable config)).splitOn ' ' = execWords executable config := by
    refine splitOn_intercalate _ ?_ nofun
    have h := not_mem_literal he (show isLiteral ' ' = false by decide)
    have h' := not_mem_literal hc (show isLiteral ' ' = false by decide)
    simp [execWords, h, h']
  have hspec : " run --config ".toList.any isSpecial = false := by simp [isSpecial]
  have hhead : executable.display.head? = some '/' := beq_iff_eq.mp hs
  rw [commandWords, hw, execLine_eq, if_neg]
  · refine filter_eq_self.mpr ?_
    simp [execWords, ne_nil_of_isAbsolute hs, ne_nil_of_isAbsolute hs']
  · rw [any_append, any_append, not_special_of_literal he, not_special_of_literal hc, hspec, head?_append, hhead,
      Option.some_or]
    decide

theorem unitValue_unitLines (he : executable.display.all isLiteral = true)
    (hc : config.display.all isLiteral = true) :
    unitValue "ExecStart=" (['\n'].intercalate (unitLines executable config)) =
      some ([' '].intercalate (execWords executable config)) := by
  have hl : (['\n'].intercalate (unitLines executable config)).splitOn '\n' = unitLines executable config := by
    refine splitOn_intercalate _ ?_ nofun
    have hn : isLiteral '\n' = false := by decide
    simp only [unitLines, execLine_eq, forall_mem_append, forall_mem_cons]
    exact ⟨by simp, not_mem_append (by simp) (not_mem_append (not_mem_literal he hn)
      (not_mem_append (by simp) (not_mem_literal hc hn))), by simp⟩
  rw [unitValue, hl, unitLines, findSome?_append]
  simp only [map_cons, map_nil, String.reduceToList, cons_append, nil_append]
  rfl

theorem replace_append (c : Char) (text a b : List Char) :
    replace c text (a ++ b) = replace c text a ++ replace c text b := flatMap_append

theorem escape_cons (c : Char) (rest : List Char) : escape (c :: rest) = escape [c] ++ escape rest := by
  rw [← singleton_append, escape, replace_append, replace_append, replace_append, replace_append, replace_append]
  rfl

theorem replace_of_ne {c x : Char} (h : c ≠ x) (text : List Char) : replace x text [c] = [c] := by
  rw [replace, flatMap_cons, if_neg h]
  rfl

/-- The text of one character, which is an entity or the character itself. -/
theorem escape_singleton (c : Char) : '<' ∉ escape [c] ∧ ∀ rest, unescape (escape [c] ++ rest) = c :: unescape rest := by
  by_cases hamp : c = '&'
  · rw [hamp, show escape ['&'] = ['&', 'a', 'm', 'p', ';'] from rfl]
    exact ⟨by decide, fun _ => rfl⟩
  by_cases hlt : c = '<'
  · rw [hlt, show escape ['<'] = ['&', 'l', 't', ';'] from rfl]
    exact ⟨by decide, fun _ => rfl⟩
  by_cases hgt : c = '>'
  · rw [hgt, show escape ['>'] = ['&', 'g', 't', ';'] from rfl]
    exact ⟨by decide, fun _ => rfl⟩
  by_cases hquot : c = '"'
  · rw [hquot, show escape ['"'] = ['&', 'q', 'u', 'o', 't', ';'] from rfl]
    exact ⟨by decide, fun _ => rfl⟩
  by_cases hapos : c = '\''
  · rw [hapos, show escape ['\''] = ['&', 'a', 'p', 'o', 's', ';'] from rfl]
    exact ⟨by decide, fun _ => rfl⟩
  rw [escape, replace_of_ne hamp, replace_of_ne hlt, replace_of_ne hgt, replace_of_ne hquot, replace_of_ne hapos]
  refine ⟨fun h => hlt (mem_singleton.mp h).symm, fun rest => ?_⟩
  exact if_neg hamp

theorem unescape_escape (value : List Char) : unescape (escape value) = value := by
  induction value with
  | nil => rfl
  | cons c rest ih => rw [escape_cons, (escape_singleton c).2, ih]

theorem not_mem_escape (value : List Char) : '<' ∉ escape value := by
  induction value with
  | nil => exact not_mem_nil
  | cons c rest ih =>
    rw [escape_cons, mem_append, not_or]
    exact ⟨(escape_singleton c).1, ih⟩

theorem xml_ok {value text : List Char} (h : xml value = .ok text) : text = escape value := by
  unfold xml at h
  split at h
  · cases h
  · cases h
    rfl

theorem afterKey_append (key text : List Char) : afterKey key (key ++ text) = some text := by
  induction key with
  | nil => rfl
  | cons c key ih => rw [cons_append, afterKey, if_pos rfl, ih]

theorem element_ne {tag : List Char} (ht : afterKey "string>".toList tag = none) (hend : tag ≠ "/string>".toList)
    {text piece : List Char} (h : piece ∈ element text) : piece ≠ tag := by
  rcases mem_pair.mp h with rfl | rfl
  · rintro rfl
    rw [afterKey_append] at ht
    cases ht
  · exact hend.symm

theorem filterMap_element (arguments : List (List Char)) :
    (arguments.flatMap element).filterMap (fun piece => (afterKey "string>".toList piece).map unescape) =
      arguments.map unescape := by
  have hend : afterKey "string>".toList "/string>".toList = none := by simp [afterKey]
  induction arguments with
  | nil => rfl
  | cons text rest ih =>
    rw [flatMap_cons, filterMap_append, ih, element, filterMap_cons, afterKey_append, filterMap_cons, hend]
    rfl

theorem programArguments_plistPieces {label : List Char} {arguments : List (List Char)} (hl : '<' ∉ label)
    (h : ∀ text ∈ arguments, '<' ∉ text) :
    programArguments (['<'].intercalate (plistPieces label arguments)) = arguments.map unescape := by
  have he : ∀ text, '<' ∉ text → ∀ piece ∈ element text, '<' ∉ piece := by
    intro text htext piece hm
    rcases mem_pair.mp hm with rfl | rfl
    · exact not_mem_append (by decide) htext
    · decide
  have hpieces : (['<'].intercalate (plistPieces label arguments)).splitOn '<' = plistPieces label arguments := by
    refine splitOn_intercalate _ ?_ nofun
    simp only [plistPieces, forall_mem_append, forall_mem_cons]
    refine ⟨⟨⟨by decide, he label hl⟩, by decide⟩, ⟨by decide, fun piece hm => ?_⟩,
      by decide⟩
    obtain ⟨text, htext, hp⟩ := mem_flatMap.mp hm
    exact he text (h text htext) piece hp
  have hb : ∀ piece ∈ element label, decide (piece ≠ "array>".toList) = true := fun piece hm =>
    decide_eq_true (element_ne (by decide) (by decide) hm)
  have hi : ∀ piece ∈ arguments.flatMap element, decide (piece ≠ "/array>".toList) = true := by
    intro piece hm
    obtain ⟨text, _, hp⟩ := mem_flatMap.mp hm
    exact decide_eq_true (element_ne (by decide) (by decide) hp)
  rw [programArguments, hpieces, plistPieces, append_assoc, append_assoc, dropWhile_append_of_pos (by decide),
    dropWhile_append_of_pos hb, dropWhile_append_of_pos (by decide), cons_append,
    dropWhile_cons_of_neg (by decide), takeWhile_cons_of_pos (by decide), takeWhile_append_of_pos hi,
    show takeWhile _ (["/array>", "/dict>", "/plist>\n"].map String.toList) = [] by decide, append_nil,
    filterMap_cons_none (by decide), filterMap_element]

/-- Both managers run the executable with the arguments of the `ServiceSpec`. -/
theorem rendered_argv (executable config : OsPath) :
    (∀ refuses spec unit other, serviceSpecForInstall refuses executable (some config) = .ok spec →
      renderSystemdUnit executable config = .ok unit →
      (unitValue "ExecStart=" unit).map (commandWords other) = some (spec.executable.display :: spec.args)) ∧
    ∀ label plist, renderLaunchdPlist label executable config = .ok plist →
      programArguments plist = executable.display :: ["run".toList, "--config".toList, config.display] := by
  refine ⟨fun refuses spec unit other hspec hunit => ?_, fun label plist hplist => ?_⟩
  · unfold renderSystemdUnit at hunit
    split_ifs at hunit with hslash hliteral
    cases hunit
    simp only [Bool.or_eq_true, Bool.not_eq_true', not_or, Bool.not_eq_false] at hslash
    simp only [Bool.not_eq_true', Bool.not_eq_false, all_cons, all_nil, Bool.and_true, Bool.and_eq_true] at hliteral
    rw [unitValue_unitLines hliteral.1 hliteral.2, Option.map_some,
      commandWords_literal other hslash.1 hslash.2 hliteral.1 hliteral.2]
    unfold serviceSpecForInstall at hspec
    split_ifs at hspec
    simp only at hspec
    split at hspec
    · cases hspec
    · cases hspec
      rfl
  · unfold renderLaunchdPlist at hplist
    split_ifs at hplist
    split at hplist
    · cases hplist
    · cases hplist
    · rename_i e c he hc
      obtain ⟨_, ⟨⟩⟩ := Option.ite_none_right_eq_some.mp he
      obtain ⟨_, ⟨⟩⟩ := Option.ite_none_right_eq_some.mp hc
      simp only [Lib.bind_eq_ok, Lib.pure_eq_ok] at hplist
      obtain ⟨_, hlabel, _, hexecutable, _, hconfig, rfl⟩ := hplist
      rw [xml_ok hlabel, xml_ok hexecutable, xml_ok hconfig, programArguments_plistPieces (not_mem_escape label)]
      · have hrun : unescape "run".toList = "run".toList := by
          simp only [String.reduceToList]
          rfl
        have hflag : unescape "--config".toList = "--config".toList := by
          simp only [String.reduceToList]
          rfl
        simp only [map_cons, map_nil, unescape_escape, hrun, hflag]
      · simp only [forall_mem_cons]
        exact ⟨not_mem_escape _, by simp, by simp, not_mem_escape _, forall_mem_nil _⟩

namespace Example

def daemon : OsPath := ⟨['/', 'd'], true⟩
def node : OsPath := ⟨['/', 'n', '&'], true⟩

end Example

open Example

/-- A plain path for systemd, and one with a character to escape for launchd. -/
theorem rendered_argv_read : (∃ spec unit, serviceSpecForInstall (fun _ => none) daemon (some daemon) = .ok spec ∧
      renderSystemdUnit daemon daemon = .ok unit ∧
      (unitValue "ExecStart=" unit).map (commandWords fun _ => []) = some (spec.executable.display :: spec.args)) ∧
    ∃ plist, renderLaunchdPlist serviceId.toList daemon node = .ok plist ∧
      programArguments plist = daemon.display :: ["run".toList, "--config".toList, node.display] := by
  have hspec : serviceSpecForInstall (fun _ => none) daemon (some daemon) = .ok ⟨daemon, _, some daemon⟩ := rfl
  have hunit : renderSystemdUnit daemon daemon = .ok _ := rfl
  have hplist : renderLaunchdPlist serviceId.toList daemon node = .ok _ := rfl
  exact ⟨⟨_, _, hspec, hunit, (rendered_argv daemon daemon).1 _ _ _ _ hspec hunit⟩,
    _, hplist, (rendered_argv daemon node).2 _ _ hplist⟩

end Eggwork.Server.Services
