import ConfigTree.Proofs.CommandLine.Request
import ConfigTree.Proofs.Loader.Pinned

/-!
# What is set is what is got

The command takes assignments, `path=value`, and can be asked for the value at a path. What does it print
when it is asked for the path of the last assignment?

The value is written into the data of the request, over what the data and the other assignments put there.
These data are merged over the file at the top, this over its imports, and the references of the whole are
resolved. None of this touches a value that is no mapping and has no placeholders in it: whenever the file
can be loaded, the value that is printed is the one that was set (`run_of_setsAndGets`), with whatever
options. Only the entry of the imports key is out of reach.
-/

namespace ConfigTree.CommandLine

/-- The value that is meant by the text after the equals sign of an assignment. -/
def meantValue (raw : String) : Value := (Json.parse raw).getD (.string raw)

/-- The path that the request asks for is that of its last assignment. -/
structure Request.SetsAndGets (r : Request) (path raw : String) : Prop where
  /-- The last assignment is to the path. -/
  last : ∃ before, r.assignments = before ++ [path ++ "=" ++ raw]
  /-- The path is asked for. -/
  asked : r.get = some path
  /-- An equals sign ends a path. -/
  noEquals : '=' ∉ path.toList
  /-- Blanks around a path are not part of it. -/
  trimmed : Text.trim path = path

namespace Request

variable {r : Request} {w w' : World} {l : Loader} {d data : Document} {file path raw : String}
  {output : LoadOutput}

/-- An assignment is cut at its first equals sign. -/
theorem of_assignment_eq_ok {p : Path} {v : Value} (hequals : '=' ∉ path.toList)
    (htrim : Text.trim path = path) (h : assignment (path ++ "=" ++ raw) = .ok (p, v)) :
    Path.parseText path = .ok p ∧ v = meantValue raw := by
  have hlist : (path ++ "=" ++ raw).toList = path.toList ++ '=' :: raw.toList := by simp
  have hkey : (path ++ "=" ++ raw).toList.takeWhile (· ≠ '=') = path.toList := by
    rw [hlist, List.takeWhile_append_of_pos]
    · simp
    · intro c hc
      simp only [ne_eq, decide_eq_true_eq]
      rintro rfl
      exact hequals hc
  have hraw : (path ++ "=" ++ raw).toList.drop (path.toList.length + 1) = raw.toList := by
    rw [hlist]
    simp
  have hlong : path.toList.length ≠ (path ++ "=" ++ raw).toList.length := by
    rw [hlist]
    simp
  rw [assignment] at h
  simp only [hkey, hraw, if_neg hlong, String.ofList_toList, htrim] at h
  split at h
  · cases h
  · next q hq =>
    cases h
    exact ⟨hq, rfl⟩

/-- The last assignment of a request is carried out after everything else. -/
theorem exists_assign_of_forcedData {before : List String} {last : String}
    (hlast : r.assignments = before ++ [last]) (h : r.forcedData = .ok data) :
    ∃ d, assign d last = .ok data := by
  obtain ⟨given, -, h⟩ := bind_eq_ok_iff.1 h
  rw [hlast, List.foldlM_append, bind_eq_ok_iff] at h
  obtain ⟨d, -, h⟩ := h
  rw [List.foldlM_cons, bind_eq_ok_iff] at h
  obtain ⟨d', hassign, h⟩ := h
  cases h
  exact ⟨d, hassign⟩

/-- The data of the request hold what its last assignment says. -/
theorem get?_forcedData (hr : r.SetsAndGets path raw) (h : r.forcedData = .ok data) :
    ∃ first rest, Path.parseText path = .ok (first :: rest) ∧
      data.get? (first :: rest) = some (meantValue raw) := by
  obtain ⟨before, hbefore⟩ := hr.last
  obtain ⟨d, hassign⟩ := exists_assign_of_forcedData hbefore h
  obtain ⟨p, v, hassignment, hfault, rfl⟩ := assign_eq_ok_iff.1 hassign
  obtain ⟨hparse, rfl⟩ := of_assignment_eq_ok hr.noEquals hr.trimmed hassignment
  have hread := Document.get?_set hfault
  cases p with
  | nil => cases hfault
  | cons first rest => exact ⟨first, rest, hparse, hread⟩

/-- Whatever is loaded, what was set is found in it. -/
theorem get?_of_load (hr : r.SetsAndGets path raw)
    (hkey : ∀ l first rest, r.loader w.env = .ok l → Path.parseText path = .ok (first :: rest) →
      first.documentKey ≠ l.options.importsKey)
    (hvalue : (meantValue raw).entries? = none) (hclean : (meantValue raw).Clean)
    (hload : r.load w file = .ok output) :
    ∃ first rest, Path.parseText path = .ok (first :: rest) ∧
      output.toDocument.get? (first :: rest) = some (meantValue raw) := by
  obtain ⟨l, hloader, hload⟩ := load_eq_ok_iff.1 hload
  have hdata := data_of_loader hloader
  obtain ⟨first, rest, hparse, hget⟩ := get?_forcedData hr hdata
  refine ⟨first, rest, hparse, ?_⟩
  have hkeeps := keepsDocuments_of_loader hloader w
  have hwellformed : (l.options.effective {}).data.Wellformed := wellformed_forcedData hdata
  have hne := hkey l first rest hloader hparse
  rcases hload with ⟨-, d, hd, rfl⟩ | ⟨-, houtput⟩
  · exact Loader.get?_of_loadRaw hkeeps hwellformed hget hvalue hne hd
  · exact Loader.get?_of_loadWith hkeeps (resolver_of_loader hloader) hwellformed hget hvalue hclean hne
      houtput

end Request

open Request

/-- **What is set is what is got.** A run that asks for the path of its last assignment prints the value
that this assignment sets, as soon as the file can be loaded: the value is no mapping, no text in it holds
the beginning of a placeholder, and the path does not begin with the imports key. -/
theorem run_of_setsAndGets {w w' : World} {args : List String} {r : Request} {file path raw : String}
    {output : LoadOutput} (hdotenv : LoaderBuilder.loadDotenv w = (w', none))
    (hargs : Request.ofArguments args = .ok r) (hfile : r.file = some file)
    (hr : r.SetsAndGets path raw)
    (hkey : ∀ l first rest, (r.withEnvironment w'.env).loader w'.env = .ok l →
      Path.parseText path = .ok (first :: rest) → first.documentKey ≠ l.options.importsKey)
    (hvalue : (meantValue raw).entries? = none) (hclean : (meantValue raw).Clean)
    (hload : (r.withEnvironment w'.env).load w' file = .ok output) :
    (∃ p, Path.parseText path = .ok p ∧ output.toDocument.get? p = some (meantValue raw)) ∧
      run w args = .printed (r.render (meantValue raw)) := by
  have hr' : (r.withEnvironment w'.env).SetsAndGets path raw :=
    ⟨hr.last, hr.asked, hr.noEquals, hr.trimmed⟩
  obtain ⟨first, rest, hparse, hget⟩ := get?_of_load hr' hkey hvalue hclean hload
  refine ⟨⟨_, hparse, hget⟩, ?_⟩
  have hanswer : (r.withEnvironment w'.env).answer w' file = .ok (meantValue raw) := by
    simp only [answer, hload, Except.bind, select, hr'.asked, hparse, hget]
  rw [run, hdotenv]
  simp only [hargs, hfile, hanswer]
  rfl

/-- A file that holds a number where its import holds a mapping. -/
def cutting : World where
  nodes := [
    ("/root.json", .file "\x7b\"imports\":[\"base.json\"],\"a\":5\x7d".toUTF8),
    ("/base.json", .file "\x7b\"a\":\x7b\"b\":1,\"c\":2\x7d\x7d".toUTF8)]
  env := [("DOTENV_DISABLED", "1")]

/-- A request that sets one path twice and asks for it. -/
def settingTwice : Request where
  file := some "/root.json"
  assignments := ["a.b=x", "a.b=[1,\"y\"]"]
  get := some "a.b"

/-- The path that is asked for does not begin with the imports key. -/
theorem documentKey_settingTwice {l : Loader} {first : Segment} {rest : Path}
    (hloader : (settingTwice.withEnvironment cutting.env).loader cutting.env = .ok l)
    (hparse : Path.parseText "a.b" = .ok (first :: rest)) :
    first.documentKey ≠ l.options.importsKey := by
  have hpath : Path.parseText "a.b" = .ok [.key "a", .key "b"] := by decide +kernel
  cases hpath.symm.trans hparse
  obtain ⟨data, flag, -, rfl⟩ := loader_eq_ok hloader
  show "a" ≠ ((settingTwice.withEnvironment cutting.env).importsKey.or
    (Environment.setting cutting.env (SettingVariable.name .importsKey))).getD defaultImportsKey
  decide +kernel

/-- What the load of the request gives. -/
def setTwice : Document :=
  [("a", .mapping [("b", .sequence [.number (.int 1), .string "y"]), ("c", .number (.int 2))]),
    ("imports", .sequence [.string "/base.json"])]

theorem load_settingTwice :
    (settingTwice.withEnvironment cutting.env).load cutting "/root.json" = .ok (.document setTwice) := by
  have hrun : ((settingTwice.withEnvironment cutting.env).loader cutting.env).toOption.map (fun l =>
      ((l.loadDocument cutting (l.options.effective {}) 2 [] (FilePath.normalize cutting.cwd "/root.json")).outcome,
        Loader.finish (l.resolver cutting.env) (l.options.effective {}).importsKey setTwice,
        (l.options.effective {}).flattenOutput)) =
      some (.ok setTwice, ⟨setTwice, none⟩, false) := by decide +kernel
  rw [load_eq_ok_iff]
  cases hloader : (settingTwice.withEnvironment cutting.env).loader cutting.env with
  | error e => simp [hloader, Except.toOption] at hrun
  | ok l =>
    simp only [hloader, Except.toOption, Option.map_some, Option.some.injEq, Prod.mk.injEq] at hrun
    obtain ⟨hdocument, hfinish, hflatten⟩ := hrun
    refine ⟨l, rfl, .inr ⟨rfl, Loader.loadWith_eq_ok_iff.2 ⟨setTwice, setTwice, ?_, hfinish, ?_⟩⟩⟩
    · exact Loader.loadRaw_eq_ok_iff_exists.2 ⟨2, hdocument⟩
    · rw [hflatten]
      rfl

/-- The second assignment is what is found. -/
theorem run_settingTwice :
    LoaderBuilder.loadDotenv cutting = (cutting, none) ∧
      Request.ofArguments ["/root.json", "--set", "a.b=x", "--set", "a.b=[1,\"y\"]", "--get", "a.b"] =
        .ok settingTwice ∧
      settingTwice.SetsAndGets "a.b" "[1,\"y\"]" ∧
      meantValue "[1,\"y\"]" = .sequence [.number (.int 1), .string "y"] ∧
      run cutting ["/root.json", "--set", "a.b=x", "--set", "a.b=[1,\"y\"]", "--get", "a.b"] =
        .printed (settingTwice.render (meantValue "[1,\"y\"]")) := by
  have hdotenv : LoaderBuilder.loadDotenv cutting = (cutting, none) := if_pos (by decide +kernel)
  have hargs : Request.ofArguments
      ["/root.json", "--set", "a.b=x", "--set", "a.b=[1,\"y\"]", "--get", "a.b"] =
        .ok settingTwice := by decide +kernel
  have hmeant : meantValue "[1,\"y\"]" = .sequence [.number (.int 1), .string "y"] := by decide +kernel
  have hsets : settingTwice.SetsAndGets "a.b" "[1,\"y\"]" :=
    ⟨⟨["a.b=x"], by decide +kernel⟩, rfl, by decide +kernel, by decide +kernel⟩
  have hclean : (meantValue "[1,\"y\"]").Clean := by
    rw [hmeant, Value.Clean]
    decide
  have hvalue : (meantValue "[1,\"y\"]").entries? = none := by
    rw [hmeant]
    rfl
  refine ⟨hdotenv, hargs, hsets, hmeant, ?_⟩
  exact (run_of_setsAndGets hdotenv hargs rfl hsets (fun _ _ _ => documentKey_settingTwice) hvalue hclean
    load_settingTwice).2

end ConfigTree.CommandLine
