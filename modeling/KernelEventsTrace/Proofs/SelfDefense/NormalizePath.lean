import KernelEventsTrace.Driver.Function.ProtectedDir
import KernelEventsTrace.Driver.Std.StringObj

/-!
# `KernelEventsTrace.Proofs.SelfDefense.NormalizePath`: what `NormalizeDevicePath` makes of a path

Below `\??\` the function looks for the backslash behind the device name. The bound of its loop is
a length in bytes, and the position counts code units. So without a backslash it reads behind the
end of the path.

- `normalizeGlobal_spec`, `normalizeDevice_chars`, `normalizeSystemRoot_chars`: the output of a
  successful call, for each of the three kinds of paths.
- `normalizes_iff`: the paths for which the function stays inside of the buffer.
-/

set_option autoImplicit false

namespace KernelEventsTrace.Driver.SelfDefense

open KernelEventsTrace (BufferFault)
open KernelEventsTrace.Driver.Std

namespace LinkCalls

/-- The calls do what is documented. `target` has the target of each link. -/
structure Documented (calls : LinkCalls) (target : List WChar → List WChar) : Prop where
  /-- ASCII letters are the only ASCII characters that are changed. -/
  upcase_ascii : ∀ c, c < 128 → calls.upcase c = if 97 ≤ c ∧ c ≤ 122 then c - 32 else c
  /-- A query that succeeds leaves the target in the buffer. -/
  query_success : ∀ link buffer, ntSuccess (calls.openLink link) = true →
    ntSuccess (calls.queryLink link buffer).1 = true →
    (calls.queryLink link buffer).2 = target link

variable {calls : LinkCalls} {target : List WChar → List WChar}

/-! ### The device name -/

/-- The loop stops at the first backslash. -/
theorem separatorLoop_found {sub d rest : List WChar} {i n : Nat}
    (hsub : sub.drop i = d ++ 92 :: rest) (hd : 92 ∉ d) (hn : d.length < n) :
    separatorLoop sub n i = .ok (some (i + d.length)) := by
  induction d generalizing i n with
  | nil =>
    cases n with
    | zero => exact absurd hn (Nat.not_lt_zero _)
    | succ n =>
      have hget : sub[i]? = some 92 := by
        rw [← List.head?_drop, hsub]
        rfl
      simp only [separatorLoop, hget, if_true]
      rfl
  | cons c d ih =>
    cases n with
    | zero => exact absurd hn (Nat.not_lt_zero _)
    | succ n =>
      have hget : sub[i]? = some c := by
        rw [← List.head?_drop, hsub]
        rfl
      have hc : c ≠ 92 := fun h => hd (h ▸ List.mem_cons_self)
      have hdrop : sub.drop (i + 1) = d ++ 92 :: rest := by
        rw [← List.drop_drop, hsub]
        rfl
      have hn' : d.length < n := Nat.lt_of_succ_lt_succ hn
      simp only [separatorLoop, hget, if_neg hc]
      rw [ih hdrop (fun h => hd (List.mem_cons_of_mem _ h)) hn', List.length_cons]
      congr 2
      omega

/-- Without a backslash, the loop leaves the path. -/
theorem separatorLoop_fault {sub : List WChar} {i n : Nat} (hsub : 92 ∉ sub)
    (hn : sub.length < i + n) (hi : i ≤ sub.length) :
    separatorLoop sub n i = .error .outOfBounds := by
  induction n generalizing i with
  | zero => omega
  | succ n ih =>
    rcases Nat.lt_or_eq_of_le hi with hlt | heq
    · -- Still inside of the path.
      have hc : sub[i] ≠ 92 := fun h => hsub (h ▸ List.getElem_mem hlt)
      simp only [separatorLoop, List.getElem?_eq_getElem hlt, if_neg hc]
      exact ih (by omega) hlt
    · -- The bound in bytes allows one more round at the end of the path.
      have hnone : sub[i]? = none := List.getElem?_eq_none (Nat.le_of_eq heq.symm)
      simp only [separatorLoop, hnone]

/-- The device name ends before the first backslash. -/
theorem deviceNameLength_found {d rest : List WChar} (hd : 92 ∉ d)
    (hlength : 2 * (d ++ 92 :: rest).length < 2 ^ 16) :
    deviceNameLength (d ++ 92 :: rest) = .ok (2 * d.length) := by
  rw [List.length_append, List.length_cons] at hlength
  have hloop : separatorLoop (d ++ 92 :: rest) (2 * (d ++ 92 :: rest).length) 0 =
      .ok (some (0 + d.length)) := by
    refine separatorLoop_found List.drop_zero hd ?_
    rw [List.length_append, List.length_cons]
    omega
  have hushort : ushort (2 * (0 + d.length)) = 2 * d.length := by
    rw [Nat.zero_add]
    exact Nat.mod_eq_of_lt (by omega)
  unfold deviceNameLength
  rw [hloop]
  simp only [bind, Except.bind, pure, Except.pure, hushort]

/-- Without a backslash the loop runs behind the buffer. -/
theorem deviceNameLength_fault {sub : List WChar} (hne : sub ≠ []) (hsub : 92 ∉ sub) :
    deviceNameLength sub = .error .outOfBounds := by
  have hpos : 0 < sub.length := List.length_pos_iff.mpr hne
  have hloop : separatorLoop sub (2 * sub.length) 0 = .error .outOfBounds :=
    separatorLoop_fault hsub (by omega) (Nat.zero_le _)
  unfold deviceNameLength
  rw [hloop]
  rfl

/-- The call returns if and only if it finds the end of the device name. -/
theorem deviceNameLength_returns_iff {sub : List WChar} (hlength : 2 * sub.length < 2 ^ 16) :
    (∃ n, deviceNameLength sub = .ok n) ↔ sub = [] ∨ 92 ∈ sub := by
  by_cases hmem : 92 ∈ sub
  · obtain ⟨d, rest, rfl, hd⟩ := List.eq_append_cons_of_mem hmem
    exact iff_of_true ⟨_, deviceNameLength_found hd hlength⟩ (.inr hmem)
  · by_cases hnil : sub = []
    · subst hnil
      exact iff_of_true ⟨0, rfl⟩ (.inl rfl)
    · refine iff_of_false (fun h => ?_) (fun h => h.elim hnil hmem)
      obtain ⟨n, hn⟩ := h
      rw [deviceNameLength_fault hnil hmem] at hn
      cases hn

/-! ### Paths below `\??\` -/

/-- A call whose status is checked did not fail, if the function succeeds. -/
theorem passed_of_eq {s t : NtStatus} {x y : UnicodeString} {k : NtStatus × UnicodeString}
    (h : (if (!ntSuccess s) = true then (s, x) else k) = (t, y)) (ht : ntSuccess t = true) :
    ntSuccess s = true ∧ k = (t, y) := by
  cases hs : ntSuccess s with
  | true =>
    rw [hs] at h
    exact ⟨rfl, h⟩
  | false =>
    rw [hs] at h
    obtain ⟨rfl, -⟩ := Prod.mk.inj (show (s, x) = (t, y) from h)
    rw [hs] at ht
    cases ht

/-- The run after the device name was found. -/
theorem normalizeGlobal_run {path link : List WChar} {normalized : UnicodeString} {n : Nat}
    (hname : deviceNameLength (path.drop 4) = .ok n)
    (hlink : path.take (ushort (n + 8) / 2) = link) :
    calls.normalizeGlobal path normalized = .ok (
      if n = 0 then (STATUS_INVALID_PARAMETER_1, normalized)
      else if (!ntSuccess (calls.openLink link)) = true then (calls.openLink link, normalized)
      else
        let queried := afterCall normalized (calls.queryLink link normalized)
        if (!ntSuccess queried.1) = true then queried
        else if 2 * path.length - 2 * link.length + queried.2.length >
          queried.2.maximumLength then (STATUS_BUFFER_OVERFLOW, queried.2)
        else
          let appended := afterCall queried.2 (calls.append queried.2 (path.drop link.length))
          if (!ntSuccess appended.1) = true then appended else (STATUS_SUCCESS, appended.2)) := by
  subst hlink
  unfold normalizeGlobal
  rw [hname]
  simp only [bind, Except.bind, pure, Except.pure, apply_ite Except.ok]

/-- The call returns if and only if the device name ends inside of the path. -/
theorem normalizeGlobal_returns_iff {path : List WChar} {normalized : UnicodeString}
    (hlength : 2 * path.length < 2 ^ 16) :
    (∃ r, calls.normalizeGlobal path normalized = .ok r) ↔
      path.drop 4 = [] ∨ 92 ∈ path.drop 4 := by
  have hdrop : 2 * (path.drop 4).length < 2 ^ 16 := by
    rw [List.length_drop]
    omega
  rw [← deviceNameLength_returns_iff hdrop]
  cases hname : deviceNameLength (path.drop 4) with
  | ok n => exact iff_of_true ⟨_, normalizeGlobal_run hname rfl⟩ ⟨n, rfl⟩
  | error e =>
    refine iff_of_false (fun h => ?_) (fun h => ?_)
    · obtain ⟨r, hr⟩ := h
      unfold normalizeGlobal at hr
      rw [hname] at hr
      cases hr
    · obtain ⟨n, hn⟩ := h
      cases hn

/-- The output is the target of the device link, followed by the path below it. -/
theorem normalizeGlobal_chars (hdoc : Documented calls target) {path pre d rest : List WChar}
    {normalized out : UnicodeString} {status : NtStatus} (hpath : path = pre ++ (d ++ 92 :: rest))
    (hpre : pre.length = 4) (hd : 92 ∉ d) (hlength : 2 * path.length < 2 ^ 16)
    (hrun : calls.normalizeGlobal path normalized = .ok (status, out))
    (hstatus : ntSuccess status = true) :
    out.chars = target (pre ++ d) ++ 92 :: rest := by
  have htotal : path.length = 4 + (d.length + (rest.length + 1)) := by
    rw [hpath, List.length_append, List.length_append, List.length_cons, hpre]
  have hname : deviceNameLength (path.drop 4) = .ok (2 * d.length) := by
    rw [hpath, ← hpre, List.drop_left]
    refine deviceNameLength_found hd ?_
    rw [List.length_append, List.length_cons]
    omega
  have hlink : path.take (ushort (2 * d.length + 8) / 2) = pre ++ d := by
    have hushort : ushort (2 * d.length + 8) / 2 = (pre ++ d).length := by
      have hmod : ushort (2 * d.length + 8) = 2 * d.length + 8 := Nat.mod_eq_of_lt (by omega)
      rw [hmod, List.length_append, hpre]
      omega
    rw [hushort, hpath, ← List.append_assoc, List.take_left]
  have hdrop : path.drop (pre ++ d).length = 92 :: rest := by
    rw [hpath, ← List.append_assoc, List.drop_left]
  rw [normalizeGlobal_run hname hlink, hdrop] at hrun
  have hpair := Except.ok.inj hrun
  -- No check of the function failed.
  split at hpair
  · obtain ⟨rfl, -⟩ := Prod.mk.inj hpair
    cases hstatus
  obtain ⟨hopen, hpair⟩ := passed_of_eq hpair hstatus
  obtain ⟨hquery, hpair⟩ := passed_of_eq hpair hstatus
  split at hpair
  · obtain ⟨rfl, -⟩ := Prod.mk.inj hpair
    cases hstatus
  obtain ⟨happend, hpair⟩ := passed_of_eq hpair hstatus
  obtain ⟨-, rfl⟩ := Prod.mk.inj hpair
  show (calls.append _ (92 :: rest)).2 = _
  rw [calls.append_success _ _ happend]
  show (calls.queryLink (pre ++ d) normalized).2 ++ _ = _
  rw [hdoc.query_success _ _ hopen hquery]

/-! ### Paths below `\Device\` and `\SystemRoot\` -/

/-- A path below `\Device\` is copied. -/
theorem normalizeDevice_chars {path : List WChar} {normalized out : UnicodeString}
    {status : NtStatus} (hrun : calls.normalizeDevice path normalized = (status, out))
    (hstatus : ntSuccess status = true) : out.chars = path := by
  obtain ⟨happend, hrun⟩ := passed_of_eq hrun hstatus
  obtain ⟨-, rfl⟩ := Prod.mk.inj hrun
  show (calls.append _ path).2 = path
  rw [calls.append_success _ _ happend, List.nil_append]

/-- `ResolveSymbolicLink` gives the target of the link. -/
theorem resolveSymbolicLink_chars (hdoc : Documented calls target) {link : List WChar}
    {resolved : UnicodeString}
    (h : ntSuccess (calls.resolveSymbolicLink link resolved).1 = true) :
    (calls.resolveSymbolicLink link resolved).2.chars = target link := by
  obtain ⟨hopen, hquery⟩ :=
    passed_of_eq (Prod.eta (calls.resolveSymbolicLink link resolved)).symm h
  have hresult : calls.resolveSymbolicLink link resolved =
      afterCall resolved (calls.queryLink link resolved) := hquery.symm
  rw [hresult] at h ⊢
  exact hdoc.query_success link resolved hopen h

/-- The scan from the end finds the last backslash. -/
theorem lastSeparator_append {base w : List WChar} (hw : 92 ∉ w) :
    lastSeparator (base ++ 92 :: w) = some base.length := by
  have hlength : (base ++ 92 :: w).length = base.length + (w.length + 1) := by
    rw [List.length_append, List.length_cons]
  have hat : (base ++ 92 :: w)[base.length]? = some 92 := by
    rw [List.getElem?_append_right (Nat.le_refl _), Nat.sub_self, List.getElem?_cons_zero]
  have hbehind : ∀ i, (base ++ 92 :: w)[base.length + (i + 1)]? = w[i]? := by
    intro i
    rw [List.getElem?_append_right (Nat.le_add_right _ _), Nat.add_sub_cancel_left,
      List.getElem?_cons_succ]
  -- No backslash stands behind that one.
  have hnone : (List.map (fun i => base.length + i)
      (List.map Nat.succ (List.range w.length))).reverse.find?
        (fun i => decide ((base ++ 92 :: w)[i]? = some 92)) = none := by
    rw [List.find?_eq_none]
    intro j hj
    rw [List.mem_reverse, List.map_map, List.mem_map] at hj
    obtain ⟨i, -, rfl⟩ := hj
    show ¬ decide ((base ++ 92 :: w)[base.length + (i + 1)]? = some 92) = true
    rw [hbehind, decide_eq_true_eq]
    exact fun h => hw (List.mem_of_getElem? h)
  unfold lastSeparator
  rw [hlength, List.range_add, List.range_succ_eq_map, List.map_cons, List.reverse_append,
    List.reverse_cons, List.append_assoc, List.find?_append, hnone, Option.none_or]
  exact List.find?_cons_of_pos (decide_eq_true hat)

/-- The last part of the target of `\SystemRoot` is kept, and the link before it is resolved. -/
theorem normalizeSystemRoot_chars (hdoc : Documented calls target) {path base w : List WChar}
    {normalized out : UnicodeString} {status : NtStatus}
    (htarget : target (wchars "\\SystemRoot") = base ++ 92 :: w) (hw : 92 ∉ w)
    (hrun : calls.normalizeSystemRoot path normalized = (status, out))
    (hstatus : ntSuccess status = true) :
    out.chars = target base ++ 92 :: w ++ path.drop 11 := by
  unfold normalizeSystemRoot at hrun
  simp only [afterCall] at hrun
  obtain ⟨hlink, hrun⟩ := passed_of_eq hrun hstatus
  rw [resolveSymbolicLink_chars hdoc hlink, htarget, lastSeparator_append hw] at hrun
  simp only [List.take_left, List.drop_left] at hrun
  obtain ⟨hbase, hrun⟩ := passed_of_eq hrun hstatus
  obtain ⟨hwin, hrun⟩ := passed_of_eq hrun hstatus
  obtain ⟨hrest, hrun⟩ := passed_of_eq hrun hstatus
  obtain ⟨-, rfl⟩ := Prod.mk.inj hrun
  show (calls.append _ (path.drop 11)).2 = _
  rw [calls.append_success _ _ hrest]
  show (calls.append _ (92 :: w)).2 ++ _ = _
  rw [calls.append_success _ _ hwin, resolveSymbolicLink_chars hdoc hbase]

/-! ### Main result -/

/-- A string is a prefix of its extensions. -/
theorem rtlPrefixUnicodeString_append (upcase : WChar → WChar) (s rest : List WChar) :
    rtlPrefixUnicodeString upcase s (s ++ rest) = true := by
  show (s.map upcase).isPrefixOf ((s ++ rest).map upcase) = true
  rw [List.isPrefixOf_iff_prefix, List.map_append]
  exact List.prefix_append _ _

/-- Strings that differ in a character are not prefixes of each other. -/
theorem rtlPrefixUnicodeString_eq_false {upcase : WChar → WChar} {s t : List WChar} {a b : WChar}
    (i : Nat) (hs : s[i]? = some a) (ht : t[i]? = some b) (hne : upcase a ≠ upcase b) :
    rtlPrefixUnicodeString upcase s t = false := by
  rw [← Bool.not_eq_true]
  intro h
  obtain ⟨rest, hrest⟩ := List.isPrefixOf_iff_prefix.mp h
  have hlt : i < (s.map upcase).length := by
    rw [List.length_map]
    exact (List.getElem?_eq_some_iff.mp hs).1
  have hget : (t.map upcase)[i]? = some (upcase a) := by
    rw [← hrest, List.getElem?_append_left hlt, List.getElem?_map, hs]
    rfl
  rw [List.getElem?_map, ht] at hget
  exact hne (Option.some.inj hget).symm

/-- A path below `\??\`. -/
theorem normalizeDevicePath_global {path : List WChar} (normalized : UnicodeString)
    (h : rtlPrefixUnicodeString calls.upcase (wchars "\\??\\") path = true) :
    calls.normalizeDevicePath path normalized = calls.normalizeGlobal path normalized :=
  if_pos h

/-- A path below `\Device\` is not below `\??\`. -/
theorem normalizeDevicePath_device (hdoc : Documented calls target) (rest : List WChar)
    (normalized : UnicodeString) :
    calls.normalizeDevicePath (wchars "\\Device\\" ++ rest) normalized =
      .ok (calls.normalizeDevice (wchars "\\Device\\" ++ rest) normalized) := by
  have hglobal : rtlPrefixUnicodeString calls.upcase (wchars "\\??\\")
      (wchars "\\Device\\" ++ rest) = false := by
    refine rtlPrefixUnicodeString_eq_false (a := 63) (b := 68) 1 rfl rfl ?_
    rw [hdoc.upcase_ascii 63 (by decide), hdoc.upcase_ascii 68 (by decide)]
    decide
  unfold normalizeDevicePath
  rw [hglobal, rtlPrefixUnicodeString_append]
  rfl

/-- A path below `\SystemRoot\` is below none of the others. -/
theorem normalizeDevicePath_systemRoot (hdoc : Documented calls target) (rest : List WChar)
    (normalized : UnicodeString) :
    calls.normalizeDevicePath (wchars "\\SystemRoot\\" ++ rest) normalized =
      .ok (calls.normalizeSystemRoot (wchars "\\SystemRoot\\" ++ rest) normalized) := by
  have hglobal : rtlPrefixUnicodeString calls.upcase (wchars "\\??\\")
      (wchars "\\SystemRoot\\" ++ rest) = false := by
    refine rtlPrefixUnicodeString_eq_false (a := 63) (b := 83) 1 rfl rfl ?_
    rw [hdoc.upcase_ascii 63 (by decide), hdoc.upcase_ascii 83 (by decide)]
    decide
  have hdevice : rtlPrefixUnicodeString calls.upcase (wchars "\\Device\\")
      (wchars "\\SystemRoot\\" ++ rest) = false := by
    refine rtlPrefixUnicodeString_eq_false (a := 68) (b := 83) 1 rfl rfl ?_
    rw [hdoc.upcase_ascii 68 (by decide), hdoc.upcase_ascii 83 (by decide)]
    decide
  unfold normalizeDevicePath
  rw [hglobal, hdevice, rtlPrefixUnicodeString_append]
  rfl

/-- The function stays inside of the path if and only if a path below `\??\` is the prefix alone,
or has a backslash behind the device name. -/
theorem normalizeDevicePath_returns_iff {path : List WChar} {normalized : UnicodeString}
    (hlength : 2 * path.length < 2 ^ 16) :
    (∃ r, calls.normalizeDevicePath path normalized = .ok r) ↔
      (rtlPrefixUnicodeString calls.upcase (wchars "\\??\\") path = true →
        path.drop 4 = [] ∨ 92 ∈ path.drop 4) := by
  cases hglobal : rtlPrefixUnicodeString calls.upcase (wchars "\\??\\") path with
  | true =>
    rw [normalizeDevicePath_global normalized hglobal, normalizeGlobal_returns_iff hlength]
    exact ⟨fun h _ => h, fun h => h rfl⟩
  | false =>
    refine iff_of_true ?_ (fun h => nomatch h)
    unfold normalizeDevicePath
    rw [hglobal, if_neg Bool.false_ne_true]
    split
    · exact ⟨_, rfl⟩
    split <;> exact ⟨_, rfl⟩

/-- The call reads nothing outside of the path, and its output is right if it succeeds. -/
def Normalizes (calls : LinkCalls) (target : List WChar → List WChar) (path : UnicodeOperand)
    (normalized : UnicodeString) : Prop :=
  ∃ status out, calls.normalizeDevicePath path.chars normalized = .ok (status, out) ∧
    (ntSuccess status = true →
      (∀ d rest, path.chars = wchars "\\??\\" ++ (d ++ rest) → d ≠ [] → 92 ∉ d →
        rest = [] ∨ rest.head? = some 92 →
        out.chars = target (wchars "\\??\\" ++ d) ++ rest) ∧
      (∀ rest, path.chars = wchars "\\Device\\" ++ rest → out.chars = path.chars) ∧
      ∀ rest base w, path.chars = wchars "\\SystemRoot\\" ++ rest →
        target (wchars "\\SystemRoot") = base ++ 92 :: w → 92 ∉ w →
        out.chars = target base ++ 92 :: w ++ 92 :: rest)

/-- A path is normalized rightly if and only if it is not below `\??\`, is this prefix alone, or
has a backslash behind the prefix. -/
theorem normalizes_iff (hdoc : Documented calls target) (path : UnicodeOperand)
    (normalized : UnicodeString) :
    Normalizes calls target path normalized ↔
      (rtlPrefixUnicodeString calls.upcase (wchars "\\??\\") path.chars = true →
        path.chars.drop 4 = [] ∨ 92 ∈ path.chars.drop 4) := by
  have hlength : 2 * path.chars.length < 2 ^ 16 :=
    Nat.lt_of_le_of_lt path.fits path.maximumLength_lt
  have hreturns : (∃ r, calls.normalizeDevicePath path.chars normalized = .ok r) ↔ _ :=
    normalizeDevicePath_returns_iff hlength
  rw [← hreturns]
  constructor
  · rintro ⟨status, out, hrun, -⟩
    exact ⟨_, hrun⟩
  · rintro ⟨⟨status, out⟩, hrun⟩
    refine ⟨status, out, hrun, fun hstatus => ⟨?_, ?_, ?_⟩⟩
    · -- A path below `\??\`.
      intro d rest hpath hne hd hrest
      have hglobal : rtlPrefixUnicodeString calls.upcase (wchars "\\??\\") path.chars = true := by
        rw [hpath]
        exact rtlPrefixUnicodeString_append _ _ _
      cases rest with
      | nil =>
        -- Without a backslash the call does not return.
        have hsub : path.chars.drop 4 = d := by
          rw [hpath, List.append_nil]
          rfl
        rcases hreturns.mp ⟨_, hrun⟩ hglobal with hnil | hmem
        · exact absurd (hsub.symm.trans hnil) hne
        · rw [hsub] at hmem
          exact absurd hmem hd
      | cons c rest =>
        obtain rfl : c = 92 := by
          rcases hrest with h | h
          · cases h
          · exact Option.some.inj h
        rw [normalizeDevicePath_global normalized hglobal] at hrun
        exact normalizeGlobal_chars hdoc hpath rfl hd hlength hrun hstatus
    · -- A path below `\Device\`.
      intro rest hpath
      rw [hpath, normalizeDevicePath_device hdoc] at hrun
      rw [hpath]
      exact normalizeDevice_chars (Except.ok.inj hrun) hstatus
    · -- A path below `\SystemRoot\`.
      intro rest base w hpath htarget hw
      rw [hpath, normalizeDevicePath_systemRoot hdoc] at hrun
      exact normalizeSystemRoot_chars hdoc htarget hw (Except.ok.inj hrun) hstatus

/-- Each drive is a link to a device, and Windows lies on its boot device. -/
def bootDevice (link : List WChar) : List WChar :=
  if link = wchars "\\SystemRoot" then wchars "\\Device\\BootDevice\\Windows"
  else wchars "\\Device\\HarddiskVolume2"

/-- The links can be opened, and an append fails if there is no room. -/
def bootCalls : LinkCalls where
  upcase c := if 97 ≤ c ∧ c ≤ 122 then c - 32 else c
  openLink _ := STATUS_SUCCESS
  queryLink link _ := (STATUS_SUCCESS, bootDevice link)
  append destination source :=
    if 2 * (destination.chars ++ source).length ≤ destination.maximumLength then
      (STATUS_SUCCESS, destination.chars ++ source)
    else (0xC0000023#32, destination.chars)
  append_success destination source h := by
    split at h
    · next hroom => rw [if_pos hroom]
    · exact absurd (show ntSuccess 0xC0000023#32 = true from h) (by decide)

/-- The links of the example are as they are documented. -/
theorem bootCalls_documented : Documented bootCalls bootDevice :=
  ⟨fun _ _ => rfl, fun _ _ _ _ => rfl⟩

/-- The path `\??\C:`, in a buffer of its own length. -/
def drivePath : UnicodeOperand := ⟨⟨wchars "\\??\\C:", 12⟩, by decide, by decide⟩

/-- The path of a drive with a backslash is resolved. -/
theorem normalizes_drive_backslash :
    Normalizes bootCalls bootDevice ⟨⟨wchars "\\??\\C:\\", 14⟩, by decide, by decide⟩
      protectedDirBuffer :=
  (normalizes_iff bootCalls_documented _ _).mpr fun _ => .inr (by decide)

/-- There is no backslash behind `C:`, and the loop reads behind the path. -/
theorem not_normalizes_drive :
    bootCalls.normalizeDevicePath drivePath.chars protectedDirBuffer = .error .outOfBounds ∧
      ¬ Normalizes bootCalls bootDevice drivePath protectedDirBuffer := by
  have hfault : bootCalls.normalizeDevicePath drivePath.chars protectedDirBuffer =
      .error .outOfBounds := rfl
  refine ⟨hfault, fun h => ?_⟩
  obtain ⟨status, out, hrun, -⟩ := h
  rw [hfault] at hrun
  cases hrun

end LinkCalls

end KernelEventsTrace.Driver.SelfDefense
