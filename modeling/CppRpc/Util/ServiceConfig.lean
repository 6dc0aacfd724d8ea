import CppRpc.Util.ConfigRead

/-!
# `server_service_config.cc` and `client_service_config.cc`

`ServerServiceConfig` and `ClientServiceConfig` hand out the settings of a
`Config`.  The accessors of numbers are all `numberOr`: the default stands in for
a text that is missing, and for a number that is not positive.  `std::stoi` has
the last word on every other text: it throws, or it reads the digits at the start
and leaves the rest alone.

`Setting.Usable` is what a caller wants of an accessor, and `Setting.Readable` the
condition on the configured text.  The values of a `Config` are letters, digits,
underscores and dots (`isValueChar_of_value`), so there is no white space and no
sign for `std::stoi` to skip.
-/

namespace CppRpc

open CText Regex

/-! ## The code -/

/-- The accessors of numbers, for the text that the configuration has. -/
def numberOr (text : List Char) (default : Int) : Except StoiError Int :=
  if text = [] then .ok default
  else do
    if (← stoi text) ≤ 0 then .ok default
    else stoi text

structure ServerServiceConfig where
  config : Config

namespace ServerServiceConfig

def new (path : Option (List Char)) : ServerServiceConfig := ⟨Config.readFile path⟩

def ip (c : ServerServiceConfig) : List Char :=
  let ip := c.config.value "ip".toList
  if ip = [] then "127.0.0.1".toList else ip

def port (c : ServerServiceConfig) : Except StoiError Int :=
  numberOr (c.config.value "port".toList) 1234

def maxClientCount (c : ServerServiceConfig) : Except StoiError Int :=
  numberOr (c.config.value "max_client_count".toList) 2048

def cacheSize (c : ServerServiceConfig) : Except StoiError Int :=
  numberOr (c.config.value "cache_size".toList) 1024000

def workerCount (c : ServerServiceConfig) : Except StoiError Int :=
  numberOr (c.config.value "worker_count".toList) 600

def epollWorkers (c : ServerServiceConfig) : Except StoiError Int :=
  numberOr (c.config.value "epoll_workers".toList) 40

end ServerServiceConfig

structure ClientServiceConfig where
  config : Config

namespace ClientServiceConfig

def new (path : Option (List Char)) : ClientServiceConfig := ⟨Config.readFile path⟩

def ip (c : ClientServiceConfig) : List Char :=
  let ip := c.config.value "ip".toList
  if ip = [] then "127.0.0.1".toList else ip

def port (c : ClientServiceConfig) : Except StoiError Int :=
  numberOr (c.config.value "port".toList) 1234

def maxServerCount (c : ClientServiceConfig) : Except StoiError Int :=
  numberOr (c.config.value "max_server_count".toList) 1

def requestTimeout (c : ClientServiceConfig) : Except StoiError Int :=
  numberOr (c.config.value "request_timeout".toList) 3000

def cacheSize (c : ClientServiceConfig) : Except StoiError Int :=
  numberOr (c.config.value "cache_size".toList) 1024000

end ClientServiceConfig

/-! ## Usable settings -/

/-- The text is a number from 1 to `max`. -/
def IsNumber (text : List Char) (max n : Int) : Prop :=
  text ≠ [] ∧ (∀ c ∈ text, c.isDigit = true) ∧ n = Nat.ofDigitChars 10 text 0 ∧ 1 ≤ n ∧ n ≤ max

/-- A setting: the configured text, the default, the greatest value that makes
sense, and what the accessor answers. -/
structure Setting where
  text : List Char
  default : Int
  max : Int
  answer : Except StoiError Int

namespace Setting

/-- The property of a setting. -/
structure Usable (s : Setting) : Prop where
  inRange : ∃ n, s.answer = .ok n ∧ 1 ≤ n ∧ n ≤ s.max
  number : ∀ n, IsNumber s.text s.max n → s.answer = .ok n
  fallback : (∀ n, ¬ IsNumber s.text s.max n) → s.answer = .ok s.default

/-- The condition on the configured text: it is missing, or it starts with the
digits of an `int`, and these are a zero, the default or the whole of a number
in range. -/
def Readable (s : Setting) : Prop :=
  s.text = [] ∨ s.text.takeWhile Char.isDigit ≠ [] ∧ leadingNat s.text ≤ 2147483647 ∧
    (leadingNat s.text = 0 ∨ (leadingNat s.text : Int) = s.default ∨
      (∀ c ∈ s.text, c.isDigit = true) ∧ (leadingNat s.text : Int) ≤ s.max)

/-- How the accessors hand out a setting. -/
structure IsAccessor (s : Setting) : Prop where
  text : ∀ c ∈ s.text, isValueChar c = true
  answer : s.answer = numberOr s.text s.default
  default : 1 ≤ s.default ∧ s.default ≤ s.max

end Setting

/-- The settings of the server, a port being 16 bits long. -/
def ServerServiceConfig.settings (c : ServerServiceConfig) : List Setting :=
  [⟨c.config.value "port".toList, 1234, 65535, c.port⟩,
    ⟨c.config.value "max_client_count".toList, 2048, 2147483647, c.maxClientCount⟩,
    ⟨c.config.value "cache_size".toList, 1024000, 2147483647, c.cacheSize⟩,
    ⟨c.config.value "worker_count".toList, 600, 2147483647, c.workerCount⟩,
    ⟨c.config.value "epoll_workers".toList, 40, 2147483647, c.epollWorkers⟩]

/-- The settings of the client. -/
def ClientServiceConfig.settings (c : ClientServiceConfig) : List Setting :=
  [⟨c.config.value "port".toList, 1234, 65535, c.port⟩,
    ⟨c.config.value "max_server_count".toList, 1, 2147483647, c.maxServerCount⟩,
    ⟨c.config.value "request_timeout".toList, 3000, 2147483647, c.requestTimeout⟩,
    ⟨c.config.value "cache_size".toList, 1024000, 2147483647, c.cacheSize⟩]

/-! ## The values of a configuration -/

namespace Config

theorem isValueChar_of_readLines {c : Config} (hc : ∀ k, ∀ d ∈ c.value k, isValueChar d = true)
    (lines : List (List Char)) (k : List Char) :
    ∀ d ∈ (c.readLines lines).value k, isValueChar d = true := by
  induction lines generalizing c with
  | nil => exact hc k
  | cons line lines ih =>
    cases hsearch : search settingPattern line with
    | none =>
      rw [readLines_of_none hsearch]
      exact ih hc
    | some m =>
      obtain ⟨-, k', -, -, v, -, hgroups, -, ⟨-, hv⟩, -⟩ := exists_of_search hsearch
      rw [readLines_of_some hsearch hgroups]
      refine ih fun k₀ => ?_
      by_cases hk : k₀ = k'
      · subst hk
        simpa only [value, Function.update_self, Option.getD_some] using hv
      · simpa only [value, Function.update_of_ne hk] using hc k₀

theorem isValueChar_of_value (file : Option (List Char)) (k : List Char) :
    ∀ d ∈ (readFile file).value k, isValueChar d = true :=
  isValueChar_of_readLines (fun _ _ hd => absurd hd List.not_mem_nil) (fileLines file) k

end Config

/-! ## What the accessors answer -/

section Answers

variable {text : List Char} {default : Int}

/-- There is nothing to skip in front of the digits. -/
theorem stoi_of_isValueChar (h : ∀ c ∈ text, isValueChar c = true) :
    stoi text = stoiDigits false text := by
  refine stoi_eq fun c hc => ?_
  have hvalue := h c (List.mem_of_head? hc)
  refine ⟨isSpace_of_isValueChar hvalue, ?_, ?_⟩
  · rintro rfl
    cases hvalue
  · rintro rfl
    cases hvalue

/-- A text without a number at its start. -/
theorem numberOr_of_not_digit (h : ∀ c ∈ text, isValueChar c = true) (hne : text ≠ [])
    (hdigits : text.takeWhile Char.isDigit = []) :
    numberOr text default = .error .invalidArgument := by
  rw [numberOr, if_neg hne, stoi_of_isValueChar h, stoiDigits, if_pos hdigits]
  rfl

/-- A number that is not an `int`. -/
theorem numberOr_of_gt (h : ∀ c ∈ text, isValueChar c = true) (hne : text ≠ [])
    (hdigits : text.takeWhile Char.isDigit ≠ []) (hgt : 2147483647 < leadingNat text) :
    numberOr text default = .error .outOfRange := by
  have hrange : (leadingNat text : Int) < -2147483648 ∨ 2147483647 < (leadingNat text : Int) := by
    omega
  rw [numberOr, if_neg hne, stoi_of_isValueChar h, stoiDigits, if_neg hdigits]
  simp only [Bool.false_eq_true, if_false, if_pos hrange]
  rfl

/-- Every other number counts, whatever stands behind it. -/
theorem numberOr_of_le (h : ∀ c ∈ text, isValueChar c = true) (hne : text ≠ [])
    (hdigits : text.takeWhile Char.isDigit ≠ []) (hle : leadingNat text ≤ 2147483647) :
    numberOr text default =
      .ok (if leadingNat text = 0 then default else (leadingNat text : Int)) := by
  have hrange :
      ¬ ((leadingNat text : Int) < -2147483648 ∨ 2147483647 < (leadingNat text : Int)) := by
    omega
  have hstoi : stoi text = .ok (leadingNat text : Int) := by
    rw [stoi_of_isValueChar h, stoiDigits, if_neg hdigits]
    simp only [Bool.false_eq_true, if_false, if_neg hrange]
  rw [numberOr, if_neg hne, hstoi]
  by_cases hzero : leadingNat text = 0
  · simp [hzero, bind, Except.bind]
  · simp [hzero, bind, Except.bind]

end Answers

/-! ## Which settings are usable -/

theorem isNumber_iff {text : List Char} {max n : Int} (hne : text ≠ []) :
    IsNumber text max n ↔
      (∀ c ∈ text, c.isDigit = true) ∧ n = leadingNat text ∧ 1 ≤ n ∧ n ≤ max := by
  constructor
  · rintro ⟨-, hdigits, hn⟩
    exact ⟨hdigits, leadingNat_of_isDigit hdigits ▸ hn⟩
  · rintro ⟨hdigits, hn⟩
    exact ⟨hne, hdigits, leadingNat_of_isDigit hdigits ▸ hn⟩

namespace Setting

variable {s : Setting}

/-- An exception is of no use. -/
theorem not_usable_of_error {e : StoiError} (h : s.answer = .error e) : ¬ s.Usable := by
  intro husable
  obtain ⟨n, hn, -⟩ := husable.inRange
  rw [h] at hn
  cases hn

theorem usable_of_nil (h : s.IsAccessor) (hnil : s.text = []) : s.Usable := by
  have hanswer : s.answer = .ok s.default := by rw [h.answer, numberOr, if_pos hnil]
  exact ⟨⟨s.default, hanswer, h.default⟩, fun n hn => absurd hnil hn.1, fun _ => hanswer⟩

/-- A text with an `int` at its start. -/
theorem usable_iff_of_le (h : s.IsAccessor) (hne : s.text ≠ [])
    (hdigits : s.text.takeWhile Char.isDigit ≠ []) (hle : leadingNat s.text ≤ 2147483647) :
    s.Usable ↔ leadingNat s.text = 0 ∨ (leadingNat s.text : Int) = s.default ∨
      (∀ c ∈ s.text, c.isDigit = true) ∧ (leadingNat s.text : Int) ≤ s.max := by
  have hanswer := h.answer.trans (numberOr_of_le h.text hne hdigits hle)
  obtain ⟨hpos, hmax⟩ := h.default
  constructor
  · intro husable
    by_cases hnum : (∀ c ∈ s.text, c.isDigit = true) ∧ (leadingNat s.text : Int) ≤ s.max
    · exact Or.inr (Or.inr hnum)
    · have hfallback := husable.fallback fun n hn => by
        obtain ⟨hall, rfl, -, hn⟩ := (isNumber_iff hne).mp hn
        exact hnum ⟨hall, hn⟩
      rw [hanswer] at hfallback
      split at hfallback
      · rename_i hzero
        exact Or.inl hzero
      · exact Or.inr (Or.inl (Except.ok.inj hfallback))
  · intro hcond
    by_cases hdefault : (if leadingNat s.text = 0 then s.default else (leadingNat s.text : Int)) =
        s.default
    · -- a zero, or the default itself
      rw [hdefault] at hanswer
      refine ⟨⟨s.default, hanswer, hpos, hmax⟩, fun n hn => ?_, fun _ => hanswer⟩
      obtain ⟨-, rfl, hn, -⟩ := (isNumber_iff hne).mp hn
      rw [if_neg (by omega)] at hdefault
      rw [hanswer, hdefault]
    · -- a number in range
      have hzero : leadingNat s.text ≠ 0 := fun hzero => hdefault (if_pos hzero)
      rw [if_neg hzero] at hanswer hdefault
      obtain ⟨hall, hn⟩ := (hcond.resolve_left hzero).resolve_left hdefault
      have hone : 1 ≤ (leadingNat s.text : Int) := by omega
      refine ⟨⟨_, hanswer, hone, hn⟩, fun n hnum => ?_, fun hnone => ?_⟩
      · rw [hanswer, ((isNumber_iff hne).mp hnum).2.1]
      · exact absurd ((isNumber_iff hne).mpr ⟨hall, rfl, hone, hn⟩) (hnone _)

theorem usable_iff (h : s.IsAccessor) : s.Usable ↔ s.Readable := by
  unfold Readable
  by_cases hne : s.text = []
  · simp only [hne, true_or, iff_true]
    exact usable_of_nil h hne
  · simp only [hne, false_or]
    by_cases hdigits : s.text.takeWhile Char.isDigit = []
    · simp only [hdigits, ne_eq, not_true_eq_false, false_and, iff_false]
      exact not_usable_of_error (h.answer.trans (numberOr_of_not_digit h.text hne hdigits))
    · by_cases hle : leadingNat s.text ≤ 2147483647
      · rw [usable_iff_of_le h hne hdigits hle]
        simp only [ne_eq, hdigits, not_false_eq_true, hle, true_and]
      · simp only [hle, false_and, and_false, iff_false]
        exact not_usable_of_error
          (h.answer.trans (numberOr_of_gt h.text hne hdigits (Nat.lt_of_not_le hle)))

end Setting

theorem isAccessor_value (file : Option (List Char)) (key : List Char) {default max : Int}
    (h : 1 ≤ default ∧ default ≤ max) :
    let text := (Config.readFile file).value key
    Setting.IsAccessor ⟨text, default, max, numberOr text default⟩ :=
  ⟨Config.isValueChar_of_value file key, rfl, h⟩

/-- Every accessor is one of `numberOr`, and its default is in range. -/
theorem isAccessor_of_mem_settings (serverFile clientFile : Option (List Char)) :
    ∀ s ∈ (ServerServiceConfig.new serverFile).settings ++
      (ClientServiceConfig.new clientFile).settings, s.IsAccessor := by
  simp only [ServerServiceConfig.settings, ClientServiceConfig.settings, List.cons_append,
    List.nil_append, List.forall_mem_cons, List.not_mem_nil, false_implies, implies_true, and_true]
  refine ⟨?_, ?_, ?_, ?_, ?_, ?_, ?_, ?_, ?_⟩ <;> exact isAccessor_value _ _ (by decide)

/-- For every two files: the settings are usable if and only if each of the
configured texts can be read. -/
theorem settings_usable_iff (serverFile clientFile : Option (List Char)) :
    (∀ s ∈ (ServerServiceConfig.new serverFile).settings ++
        (ClientServiceConfig.new clientFile).settings, s.Usable) ↔
      ∀ s ∈ (ServerServiceConfig.new serverFile).settings ++
        (ClientServiceConfig.new clientFile).settings, s.Readable :=
  forall₂_congr fun _ hs =>
    Setting.usable_iff (isAccessor_of_mem_settings serverFile clientFile _ hs)

/-- A port that is given by a name. -/
theorem port_name_throws :
    ¬ ∀ s ∈ (ServerServiceConfig.new (some "port=http".toList)).settings ++
      (ClientServiceConfig.new none).settings, s.Usable := by
  intro h
  have hanswer : (ServerServiceConfig.new (some "port=http".toList)).port =
      .error .invalidArgument := by decide
  exact Setting.not_usable_of_error hanswer (h _ (List.mem_cons_self ..))

end CppRpc
