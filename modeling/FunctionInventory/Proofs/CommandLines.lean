import FunctionInventory.CommandLine.Program
import FunctionInventory.Proofs.CacheEntries

/-!
# Command lines with and without a cache directory

A cache directory in front of the other arguments changes nothing about how these are taken: the
request is the same but for the directory.
-/
namespace FunctionInventory

namespace CommandLine

open Logged

/-- The arguments with one more option in front. -/
def Split.after (o : Text × Text) (s : Split) : Split := { s with options := o :: s.options }

theorem Split.give_after (o : Text × Text) (s : Split) (name value : Text) :
    (s.after o).give name value = (s.give name value).after o := rfl

/-- What was given before has no effect on how the rest is split. -/
theorem split_after (specs : List OptionSpec) (mixed : Bool) (o : Text × Text) (args : List Text)
    (s : Split) : split specs mixed args (s.after o) = (split specs mixed args s).map (.after o) := by
  fun_induction split specs mixed args s with
  | case1 s => rfl
  | case2 arg rest s hend =>
    rw [split, if_pos hend]
    rfl
  | case3 arg rest s hend hoption name given hvalue hspec hlong
  | case4 arg rest s hend hoption name given hvalue hspec hlong =>
    rw [split, if_neg hend, if_pos hoption, hvalue]
    simp only [hspec, hlong]
    rfl
  | case5 arg s hend hoption name spec hspec htakes value rest hvalue ih
  | case6 arg s hend hoption name spec hspec htakes value rest hvalue ih =>
    rw [split, if_neg hend, if_pos hoption, hvalue]
    simp only [hspec, htakes, if_true, Split.give_after, ih]
  | case7 arg s hend hoption name spec hspec htakes hvalue =>
    rw [split, if_neg hend, if_pos hoption, hvalue]
    simp only [hspec, htakes]
    rfl
  | case8 arg rest s hend hoption name given hvalue spec hspec htakes hgiven =>
    rw [split, if_neg hend, if_pos hoption, hvalue]
    simp only [hspec, htakes, hgiven]
    rfl
  | case9 arg rest s hend hoption name given hvalue spec hspec htakes hgiven ih =>
    rw [split, if_neg hend, if_pos hoption, hvalue]
    simp only [hspec, htakes, hgiven, if_false, Bool.false_eq_true, Split.give_after, ih]
  | case10 arg rest s hend hoption hmixed ih =>
    rw [split, if_neg hend, if_neg hoption, if_pos hmixed]
    exact ih
  | case11 arg rest s hend hoption hmixed =>
    rw [split, if_neg hend, if_neg hoption, if_neg hmixed]
    rfl

/-- The option that names a cache directory. -/
def cacheOption (d : Text) : Text × Text := ("--cache-dir", d)

theorem split_cacheOption (d : Text) (rest : List Text) :
    split analyzeOptions true ("--cache-dir" :: d :: rest) {} =
      (split analyzeOptions true rest {}).map (.after (cacheOption d)) := by
  have hend : ¬ (Text.ofString "--cache-dir" == [dash, dash]) = true := by decide
  have hoption : isOption "--cache-dir" = true := by decide
  have hvalue : splitValue "--cache-dir" = (Text.ofString "--cache-dir", none) := by decide
  have hspec : analyzeOptions.find? (fun o => o.name == Text.ofString "--cache-dir") =
      some ⟨"--cache-dir", true⟩ := by rfl
  rw [← split_after, split, if_neg hend, if_pos hoption, hvalue]
  simp only [hspec, if_true]
  rfl

/-- The request with this cache directory, or with none. -/
def Request.withCache (d : Option Text) (r : Request) : Request := { r with cacheDirectory := d }

/-- What the environment sets in place of the number of workers. -/
def setWorkersFrom (env : Environment) (s : Split) (r : Request) : Except UsageError Request :=
  match unlessEmpty env.workers with
  | some value => if s.has "--workers" then .ok r else setWorkers r value
  | none => .ok r

/-- Takes over options, then the paths, then what the environment sets. -/
def takeOver (disk : FileSystem) (env : Environment) (s : Split) (names : List Text) (r : Request) :
    Except UsageError Request :=
  names.foldlM (setOption disk s) r >>= fun r => setPaths disk r s.arguments >>= setWorkersFrom env s

/-- Two command lines differ in nothing but the cache directory. -/
structure Agree (s s' : Split) : Prop where
  arguments : s'.arguments = s.arguments
  workers : s'.has "--workers" = s.has "--workers"
  value? : ∀ name : Text, Text.ofString "--cache-dir" ≠ name → s'.value? name = s.value? name

section

variable {disk : FileSystem} {env : Environment} {s s' : Split} {d : Option Text}

theorem request_eq (unset : unlessEmpty env.cacheDirectory = none) :
    request disk env s = takeOver disk env s (s.options.map (·.1)).eraseDups {} := by
  unfold request takeOver setWorkersFrom
  dsimp only
  refine bind_congr fun r => bind_congr fun r' => ?_
  rw [unset]
  cases unlessEmpty env.workers with
  | none => rfl
  | some value =>
    by_cases hworkers : s.has "--workers"
    · simp only [hworkers, if_true, pure_bind]
      rfl
    · simp only [hworkers, if_false, Bool.false_eq_true, bind_pure]

theorem has_iff {name : String} : s.has name = true ↔ ∃ o ∈ s.options, o.1 = Text.ofString name := by
  simp [Split.has]

theorem ne_of_mem_names (without : s.has "--cache-dir" = false) :
    ∀ name ∈ s.options.map (·.1), Text.ofString "--cache-dir" ≠ name := by
  intro name hname heq
  obtain ⟨o, ho, rfl⟩ := List.mem_map.1 hname
  have hhas : s.has "--cache-dir" = true := has_iff.2 ⟨o, ho, heq.symm⟩
  rw [without] at hhas
  cases hhas

theorem agree_after (s : Split) (d : Text) : Agree s (s.after (cacheOption d)) where
  arguments := rfl
  workers := by
    have hne : Text.ofString "--cache-dir" ≠ Text.ofString "--workers" := by decide
    simp [Split.has, Split.after, cacheOption, hne]
  value? name h := by simp [Split.value?, Split.after, cacheOption, List.find?_append, h]

theorem setLanguage_withCache (r : Request) (value : Text) :
    setLanguage (r.withCache d) value = (setLanguage r value).map (.withCache d) := by
  unfold setLanguage
  split
  · rfl
  · split <;> rfl

theorem setWorkers_withCache (r : Request) (value : Text) :
    setWorkers (r.withCache d) value = (setWorkers r value).map (.withCache d) := by
  unfold setWorkers
  cases Text.toInt? value <;> rfl

theorem setPaths_withCache (r : Request) (paths : List Text) :
    setPaths disk (r.withCache d) paths = (setPaths disk r paths).map (.withCache d) := by
  unfold setPaths
  split
  · rfl
  · split <;> rfl

/-- Other options are taken over whatever the directory is. -/
theorem setOption_withCache (h : Agree s s') (r : Request) {name : Text}
    (hname : Text.ofString "--cache-dir" ≠ name) :
    setOption disk s' (r.withCache d) name = (setOption disk s r name).map (.withCache d) := by
  have hother : ¬ (name == Text.ofString "--cache-dir") = true := by simpa using hname.symm
  unfold setOption
  rw [h.value? name hname]
  simp only [if_neg hother]
  split
  · exact setLanguage_withCache r _
  · split
    · exact setWorkers_withCache r _
    · split
      · rfl
      · split <;> rfl

theorem foldlM_setOption_withCache (h : Agree s s') {names : List Text}
    (hnames : ∀ name ∈ names, Text.ofString "--cache-dir" ≠ name) (r : Request) :
    names.foldlM (setOption disk s') (r.withCache d) =
      (names.foldlM (setOption disk s) r).map (.withCache d) := by
  induction names generalizing r with
  | nil => rfl
  | cons name names ih =>
    obtain ⟨hname, hnames⟩ := List.forall_mem_cons.1 hnames
    rw [List.foldlM_cons, List.foldlM_cons, setOption_withCache h r hname]
    cases setOption disk s r name with
    | error e => rfl
    | ok r' => exact ih hnames r'

theorem setWorkersFrom_withCache (h : Agree s s') (r : Request) :
    setWorkersFrom env s' (r.withCache d) = (setWorkersFrom env s r).map (.withCache d) := by
  unfold setWorkersFrom
  rw [h.workers]
  split
  · split
    · rfl
    · exact setWorkers_withCache r _
  · rfl

theorem takeOver_withCache (h : Agree s s') {names : List Text}
    (hnames : ∀ name ∈ names, Text.ofString "--cache-dir" ≠ name) (r : Request) :
    takeOver disk env s' names (r.withCache d) =
      (takeOver disk env s names r).map (.withCache d) := by
  unfold takeOver
  rw [foldlM_setOption_withCache h hnames, h.arguments]
  refine map_bind_eq_map_bind fun r => ?_
  rw [setPaths_withCache]
  exact map_bind_eq_map_bind (setWorkersFrom_withCache h)

/-- Without a cache directory, the request has none. -/
theorem cacheDirectory_of_request (without : s.has "--cache-dir" = false)
    (unset : unlessEmpty env.cacheDirectory = none) {r : Request}
    (h : request disk env s = .ok r) : r.cacheDirectory = none := by
  have hnames : ∀ name ∈ (s.options.map (·.1)).eraseDups, Text.ofString "--cache-dir" ≠ name :=
    fun name hname => ne_of_mem_names without name (List.mem_eraseDups.1 hname)
  have hsame : Agree s s := ⟨rfl, rfl, fun _ _ => rfl⟩
  have hmap : request disk env s = (request disk env s).map (.withCache none) := by
    rw [request_eq unset]
    exact takeOver_withCache hsame hnames {}
  rw [h] at hmap
  rw [Except.ok.inj hmap]
  rfl

theorem setOption_cacheOption (without : s.has "--cache-dir" = false) {d : Text}
    (accepted : ∀ bytes, disk.statusAsWritten d ≠ .ok (.file bytes)) :
    setOption disk (s.after (cacheOption d)) {} "--cache-dir" =
      .ok (Request.withCache (some d) {}) := by
  have hnone : s.options.reverse.find? (fun o => o.1 == Text.ofString "--cache-dir") = none := by
    rw [List.find?_eq_none]
    intro o ho hname
    refine ne_of_mem_names without o.1 ?_ (beq_iff_eq.1 hname).symm
    exact List.mem_map.2 ⟨o, List.mem_reverse.1 ho, rfl⟩
  have hvalue : (s.after (cacheOption d)).value? "--cache-dir" = some d := by
    simp only [Split.value?, Split.after, List.reverse_cons, List.find?_append, hnone]
    simp [cacheOption]
  show setCacheDirectory disk {} (((s.after (cacheOption d)).value? "--cache-dir").getD []) = _
  rw [hvalue, Option.getD_some, setCacheDirectory]
  split
  · next bytes hfile => exact absurd hfile (accepted bytes)
  · rfl

/-- With a cache directory that is accepted, the request is the same but for the directory. -/
theorem request_withCache (without : s.has "--cache-dir" = false)
    (unset : unlessEmpty env.cacheDirectory = none) {d : Text}
    (accepted : ∀ bytes, disk.statusAsWritten d ≠ .ok (.file bytes)) :
    request disk env (s.after (cacheOption d)) = (request disk env s).map (.withCache (some d)) := by
  have hne := ne_of_mem_names without
  have hfilter : (s.options.map (·.1)).filter (fun name => !name == Text.ofString "--cache-dir") =
      s.options.map (·.1) := by
    rw [List.filter_eq_self]
    intro name hname
    simpa using (hne name hname).symm
  have hnames : ((s.after (cacheOption d)).options.map (·.1)).eraseDups =
      Text.ofString "--cache-dir" :: (s.options.map (·.1)).eraseDups := by
    show (Text.ofString "--cache-dir" :: s.options.map (·.1)).eraseDups = _
    rw [List.eraseDups_cons, hfilter]
  have hfirst : takeOver disk env (s.after (cacheOption d))
      (Text.ofString "--cache-dir" :: (s.options.map (·.1)).eraseDups) {} =
      takeOver disk env (s.after (cacheOption d)) (s.options.map (·.1)).eraseDups
        (Request.withCache (some d) {}) := by
    rw [takeOver, List.foldlM_cons, setOption_cacheOption without accepted]
    rfl
  rw [request_eq unset, request_eq unset, hnames, hfirst]
  exact takeOver_withCache (agree_after s d)
    (fun name hname => hne name (List.mem_eraseDups.1 hname)) {}

/-- The language that is asked for, if any, is one that sources are analyzed in. -/
def Request.LanguageSupported (r : Request) : Prop := ∀ l, r.language = some l → IsSupported l

theorem languageSupported_setLanguage {r r' : Request} {value : Text}
    (h : setLanguage r value = .ok r') : r'.LanguageSupported := by
  unfold setLanguage at h
  split at h
  · cases h
    intro l hl
    cases hl
  · split at h
    · next hknown =>
      cases h
      intro l hl
      cases hl
      simp only [List.any_cons, List.any_nil, Bool.or_false, Bool.or_eq_true, beq_iff_eq] at hknown
      rcases hknown with rfl | rfl | rfl
      · exact isSupported_name .typeScript
      · exact isSupported_name .tsx
      · exact isSupported_name .javaScript
    · cases h

theorem language_setWorkers {r r' : Request} {value : Text} (h : setWorkers r value = .ok r') :
    r'.language = r.language := by
  unfold setWorkers at h
  split at h
  · cases h
    rfl
  · cases h

theorem language_setPaths {r r' : Request} {paths : List Text}
    (h : setPaths disk r paths = .ok r') : r'.language = r.language := by
  unfold setPaths at h
  split at h
  · cases h
  · split at h
    · cases h
    · cases h
      rfl

theorem language_setCacheDirectory {r r' : Request} {value : Text}
    (h : setCacheDirectory disk r value = .ok r') : r'.language = r.language := by
  unfold setCacheDirectory at h
  split at h
  · cases h
  · cases h
    rfl

theorem languageSupported_setOption {r r' : Request} {name : Text}
    (h : setOption disk s r name = .ok r') (hr : r.LanguageSupported) : r'.LanguageSupported := by
  unfold setOption at h
  dsimp only at h
  split at h
  · exact languageSupported_setLanguage h
  · have hsame : r'.language = r.language := by
      split at h
      · exact language_setWorkers h
      · split at h
        · exact language_setCacheDirectory h
        · split at h
          · cases h
            rfl
          · split at h
            · cases h
              rfl
            · cases h
              rfl
    intro l hl
    exact hr l (hsame ▸ hl)

theorem languageSupported_foldlM {names : List Text} {r r' : Request}
    (h : names.foldlM (setOption disk s) r = .ok r') (hr : r.LanguageSupported) :
    r'.LanguageSupported := by
  induction names generalizing r with
  | nil =>
    cases h
    exact hr
  | cons name names ih =>
    rw [List.foldlM_cons] at h
    obtain ⟨r₁, hfirst, hrest⟩ := bind_eq_ok_iff.1 h
    exact ih hrest (languageSupported_setOption hfirst hr)

theorem languageSupported_of_request {r : Request}
    (unset : unlessEmpty env.cacheDirectory = none) (h : request disk env s = .ok r) :
    r.LanguageSupported := by
  rw [request_eq unset] at h
  obtain ⟨r₁, hoptions, h⟩ := bind_eq_ok_iff.1 h
  obtain ⟨r₂, hpaths, hworkers⟩ := bind_eq_ok_iff.1 h
  have hsame : r.language = r₂.language := by
    unfold setWorkersFrom at hworkers
    split at hworkers
    · split at hworkers
      · cases hworkers
        rfl
      · exact language_setWorkers hworkers
    · cases hworkers
      rfl
  intro l hl
  rw [hsame, language_setPaths hpaths] at hl
  exact languageSupported_foldlM hoptions (by intro l hl; cases hl) l hl

theorem isSupported_languageFor {r : Request} (h : r.LanguageSupported) (u : SourceUnit) :
    IsSupported (Batch.languageFor r.options u) := by
  unfold Batch.languageFor
  split
  · next l hl =>
    split
    · exact isSupported_name _
    · exact h l hl
  · exact isSupported_name _

/-- The analyze command carries out the request that its arguments are. -/
theorem runUnder_analyze (conditions : Conditions) (settings : LogSettings) (env : Environment)
    {rest : List Text} (hsplit : split analyzeOptions true rest {} = .ok s)
    (analyzes : s.has "--help" = false) :
    runUnder conditions settings env ("analyze" :: rest) disk =
      match request disk env s with
      | .error e => pure (misuse analyzeUsage "funcmap analyze" e, disk)
      | .ok r => runAnalyzeUnder conditions settings r disk := by
  have hprogram : split programOptions false ("analyze" :: rest) {} =
      .ok { arguments := "analyze" :: rest } := by
    have hend : ¬ (Text.ofString "analyze" == [dash, dash]) = true := by decide
    have hoption : ¬ isOption "analyze" = true := by decide
    rw [split, if_neg hend, if_neg hoption]
    rfl
  unfold runUnder
  simp only [List.isEmpty_cons, hprogram, hsplit, analyzes, Bool.false_eq_true, if_false]
  rfl

/-- The program with a cache directory as the first option. -/
theorem runUnder_cacheOption (conditions : Conditions) (settings : LogSettings) {env : Environment}
    {rest : List Text} (hsplit : split analyzeOptions true rest {} = .ok s)
    (analyzes : s.has "--help" = false) (without : s.has "--cache-dir" = false)
    (unset : unlessEmpty env.cacheDirectory = none) {d : Text}
    (accepted : ∀ bytes, disk.statusAsWritten d ≠ .ok (.file bytes)) :
    runUnder conditions settings env ("analyze" :: "--cache-dir" :: d :: rest) disk =
      match request disk env s with
      | .error e => pure (misuse analyzeUsage "funcmap analyze" e, disk)
      | .ok r => runAnalyzeUnder conditions settings (r.withCache (some d)) disk := by
  have hsplit' := split_cacheOption d rest
  rw [hsplit] at hsplit'
  have hhelp : (s.after (cacheOption d)).has "--help" = false := by
    have hne : Text.ofString "--cache-dir" ≠ Text.ofString "--help" := by decide
    simpa [Split.has, Split.after, cacheOption, hne] using analyzes
  rw [runUnder_analyze conditions settings env hsplit' hhelp,
    request_withCache without unset accepted]
  cases request disk env s <;> rfl

end

end CommandLine

end FunctionInventory
