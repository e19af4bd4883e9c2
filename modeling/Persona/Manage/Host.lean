import Persona.Lib.PyText
import Persona.Lib.Firsts
import Mathlib.Data.List.MinMax
import Mathlib.Order.Lattice

/-!
# What a host can run

`detect_accelerators`, `detect_vram_mb`, `detect_memory_model`, `llama_version_info` and `select_backend` of
`manage.py`, on what the tools of a host answer.

`vulkaninfoMaxDeviceLocalMb_eq` is about the scan of what `vulkaninfo` prints: it finds the largest heap of any
device that is local to it, and a memory type never counts as one. A device that is drawn by the processor counts
too, although `detect_vulkan_devices` leaves it out. Where there is no such heap the greatest memory counts that
another tool reports (`detectVramMb_eq`). `accelerators_agree` says which backend is selected, and that no backend is
selected, the memory model is `cpu` and no accelerator is usable all at once; which ones are compiled is what
`llama-server` names (`names_of_mem_llamaVersionInfo`).
-/

namespace Persona.Manage

open Persona.Lib

/-- A text's characters. -/
abbrev Text := List Char

/-- `sub in s`. -/
def has (sub : String) (s : Text) : Bool := decide (sub.toList <:+: s)

/-- `s.lower()`. -/
def lowered (s : Text) : Text := s.map PyText.lowerChar

/-- `s.strip()`. -/
def stripped (s : Text) : Text := PyText.rstripL (PyText.lstripL s)

/-- `s.splitlines()`. -/
def linesOf (s : Text) : List Text := PyText.splitlinesL [] s

/-- What a host's tools and files answer. -/
structure Probe where
  isWindows : Bool
  which : String → Bool
  /-- `_run`: the return code and the output, `none` if it raises. -/
  run : List String → Option (ℤ × Text)
  /-- What is in each `mem_info_vram_total`; `none` if it is no number. -/
  vramTotals : List (Option ℤ)
  /-- There is an `accel*` under `/dev/accel`. -/
  accel : Bool
  /-- The value of a character that `\d` matches. -/
  decimal : Char → Option ℕ

/-! ### The size of the memory -/

variable (T : Probe)

/-- `int` of digits. -/
def valueOf (ds : Text) : ℕ := ds.foldl (fun n c => 10 * n + (T.decimal c).getD 0) 0

/-- The numbers that `re.findall(r"\d+", s)` finds. -/
def numbersOf (s : Text) : List ℕ :=
  ((s.splitOnP fun c => (T.decimal c).isNone).filter (· ≠ [])).map (valueOf T)

/-- `size\s*=\s*(\d+)` at the beginning of a text. -/
def sizeAt (s : Text) : Option ℕ :=
  if "size".toList <+: s then
    match (s.drop "size".length).dropWhile PyText.isSpace with
    | '=' :: rest =>
      let ds := (rest.dropWhile PyText.isSpace).takeWhile fun c => (T.decimal c).isSome
      if ds = [] then none else some (valueOf T ds)
    | _ => none
  else none

/-- `re.search(r"size\s*=\s*(\d+)", line)`. -/
def sizeOf? : Text → Option ℕ
  | [] => none
  | c :: cs =>
    match sizeAt T (c :: cs) with
    | some n => some n
    | none => sizeOf? cs

/-- Where the scan of a `vulkaninfo` output is. -/
structure Heaps where
  best : Option ℕ
  inHeaps : Bool
  size : Option ℕ

/-- `mb if best is None else max(best, mb)`. -/
def keep {α : Type*} [Max α] (best : Option α) (mb : α) : Option α :=
  match best with
  | none => some mb
  | some b => some (max b mb)

/-- The scan reads a line. -/
def heapLine (st : Heaps) (line : Text) : Heaps :=
  if has "memoryHeaps[" line then { st with inHeaps := true, size := none }
  else if !st.inHeaps then st
  else if has "memoryTypes" line then { st with inHeaps := false, size := none }
  else
    match sizeOf? T line with
    | some n => { st with size := some n }
    | none =>
      if has "DEVICE_LOCAL" line then
        match st.size with
        | some size => { st with best := keep st.best (size / (1024 * 1024)), size := none }
        | none => st
      else st

/-- `_vulkaninfo_max_device_local_mb`. -/
def vulkaninfoMaxDeviceLocalMb : Option ℕ :=
  if T.which "vulkaninfo" then
    match T.run ["vulkaninfo"] with
    | none => none
    | some (_, out) => ((linesOf out).foldl (heapLine T) ⟨none, false, none⟩).best
  else none

/-- What `nvidia-smi` is asked. -/
def nvidiaQuery : List String := ["nvidia-smi", "--query-gpu=memory.total", "--format=csv,noheader,nounits"]

/-- What the registry of Windows is asked. -/
def registryQuery : List String :=
  ["powershell", "-NoProfile", "-Command",
    "Get-ItemProperty -Path 'HKLM:\\SYSTEM\\CurrentControlSet\\Control\\Class\\\x7b4d36e968-e325-11ce-bfc1-08002be10318\x7d\\*' " ++
    "-Name 'HardwareInformation.qwMemorySize' -EA SilentlyContinue | " ++
    "ForEach-Object \x7b $_.'HardwareInformation.qwMemorySize' \x7d"]

/-- `detect_vram_mb`. -/
def detectVramMb : Option ℤ :=
  match vulkaninfoMaxDeviceLocalMb T with
  | some mb => some mb
  | none =>
    let best : Option ℤ :=
      if T.which "nvidia-smi" then
        match T.run nvidiaQuery with
        | some (0, out) => ((numbersOf T out).map Int.ofNat).max?
        | _ => none
      else none
    if T.isWindows then
      match T.run registryQuery with
      | some (0, out) =>
        match (numbersOf T out).max? with
        | some bytes => keep best (bytes / (1024 * 1024) : ℕ)
        | none => best
      | _ => best
    else T.vramTotals.foldl (fun best bytes =>
      match bytes with
      | some bytes => keep best (bytes / (1024 * 1024))
      | none => best) best

/-! ### Accelerators -/

/-- The vendor of a device. -/
inductive Vendor where
  | nvidia | amd | intel | unknown | huawei | moorethreads | hailo
  deriving DecidableEq

/-- A backend of `llama-server`, in the order of `BACKEND_PRIORITY`. -/
inductive Backend where
  | cuda | rocm | sycl | vulkan | opencl | cann | musa
  deriving DecidableEq

/-- `BACKEND_PRIORITY`. -/
def backendPriority : List Backend := [.cuda, .rocm, .sycl, .vulkan, .opencl, .cann, .musa]

/-- A device that a tool names. -/
structure Device where
  vendor : Vendor
  device : Text

/-- An accelerator. -/
structure Accel where
  vendor : Vendor
  device : Text
  tier : ℕ
  backends : List Backend
  usableForLlm : Bool

/-- The devices of `detect_vulkan_devices`. -/
def detectVulkanDevices : List Device :=
  if T.which "vulkaninfo" then
    match T.run ["vulkaninfo", "--summary"] with
    | none => []
    | some (_, out) =>
      (linesOf out).filterMap fun line =>
        if has "deviceName" line && has "=" line then
          let name := stripped ((line.dropWhile (· ≠ '=')).drop 1)
          let low := lowered name
          if has "llvmpipe" low || has "software" low then none
          else
            let vendor : Vendor :=
              if has "nvidia" low then .nvidia
              else if has "amd" low || has "radeon" low || has "radv" low then .amd
              else if has "intel" low || has "arc" low || has "xe" low then .intel
              else .unknown
            some ⟨vendor, name⟩
        else none
  else []

/-- `_classify_gpu_vendor`. -/
def classifyGpuVendor (name : Text) : Option Vendor :=
  let low := lowered name
  if has "llvmpipe" low || has "software" low || has "microsoft basic" low || has "basic display" low then none
  else if has "nvidia" low then some .nvidia
  else if has "amd" low || has "radeon" low || has "radv" low || has "ati " low then some .amd
  else if has "intel" low || has "arc" low || has " xe" low then some .intel
  else some .unknown

/-- `line.split(":", n)[-1]`. -/
def lastPart : ℕ → Text → Text
  | 0, s => s
  | n + 1, s =>
    match s.dropWhile (· ≠ ':') with
    | [] => s
    | _ :: rest => lastPart n rest

/-- `detect_os_gpus`. -/
def detectOsGpus : List Device :=
  let names : List Text :=
    if T.isWindows then
      match T.run ["powershell", "-NoProfile", "-Command",
          "Get-CimInstance Win32_VideoController | ForEach-Object \x7b $_.Name \x7d"] with
      | some (0, out) => ((linesOf out).map stripped).filter (· ≠ [])
      | _ => []
    else if T.which "lspci" then
      match T.run ["lspci"] with
      | some (0, out) =>
        ((linesOf out).filter fun line =>
          has "VGA compatible controller" line || has "3D controller" line || has "Display controller" line).map fun line =>
          stripped (lastPart 2 line)
      | _ => []
    else []
  names.filterMap fun n => (classifyGpuVendor n).map fun vendor => ⟨vendor, n⟩

/-- The accelerators that a vendor's own tool names. -/
def toolAccels : List Accel :=
  (if T.which "nvidia-smi" then
    let names :=
      match T.run ["nvidia-smi", "--query-gpu=name", "--format=csv,noheader"] with
      | some (0, out) => ((linesOf out).map stripped).filter (· ≠ [])
      | _ => []
    (if names = [] then ["NVIDIA GPU".toList] else names).map fun n => ⟨.nvidia, n, 1, [.cuda, .vulkan], true⟩
  else []) ++
  (if T.which "rocminfo" || T.which "rocm-smi" then [⟨.amd, "AMD GPU (ROCm)".toList, 1, [.rocm, .vulkan], true⟩] else []) ++
  (if T.which "sycl-ls" || T.which "xpu-smi" then [⟨.intel, "Intel GPU (SYCL)".toList, 1, [.sycl, .vulkan], true⟩] else [])

/-- `detect_accelerators`. -/
def detectAccelerators : List Accel :=
  let found := toolAccels T
  let generic := firsts Device.vendor [] (detectVulkanDevices T ++ detectOsGpus T)
  found ++
  (generic.filter fun d => d.vendor ∉ found.map Accel.vendor).map (fun d => ⟨d.vendor, d.device, 1, [.vulkan], true⟩) ++
  (if T.which "npu-smi" then [⟨.huawei, "Ascend NPU".toList, 1, [.cann], true⟩] else []) ++
  (if T.which "mthreads-gmi" then [⟨.moorethreads, "MTT GPU".toList, 1, [.musa], true⟩] else []) ++
  (if !T.isWindows && T.accel then [⟨.intel, "NPU".toList, 2, [], false⟩] else []) ++
  (if T.which "hailortcli" then [⟨.hailo, "Hailo".toList, 3, [], false⟩] else []) ++
  (if T.which "hl-smi" then [⟨.intel, "Gaudi".toList, 3, [], false⟩] else [])

/-! ### The memory model and the backend -/

/-- `_vulkan_device_types`. -/
def vulkanDeviceTypes : List Text :=
  if T.which "vulkaninfo" then
    match T.run ["vulkaninfo", "--summary"] with
    | none => []
    | some (_, out) => ((linesOf out).filter fun line => has "deviceType" line && has "=" line).map fun line =>
        lowered (stripped ((line.dropWhile (· ≠ '=')).drop 1))
  else []

/-- Whether memory is shared with the processor. -/
inductive MemoryModel where
  | cpu | discrete | unified
  deriving DecidableEq

/-- The names of graphics that share the processor's memory. -/
def apuHints : List String :=
  ["strix", "radeon graphics", "ryzen", "uhd graphics", "iris", "vega ", "780m", "880m", "890m", "8060s", "integrated"]

/-- `detect_memory_model`. -/
def detectMemoryModel (accels : List Accel) : MemoryModel :=
  let usable := accels.filter Accel.usableForLlm
  let types := vulkanDeviceTypes T
  if usable = [] then .cpu
  else if types.any (has "discrete") then .discrete
  else if types ≠ [] && types.all fun t => has "integrated" t || has "cpu" t || has "virtual" t then .unified
  else if apuHints.any fun h => has h ([' '].intercalate (usable.map fun a => lowered a.device)) then .unified
  else .discrete

/-- What `_scan_backends` looks for, and the backend it stands for. -/
def backendTokens : List (String × Backend) :=
  [("cuda", .cuda), ("vulkan", .vulkan), ("rocm", .rocm), ("hip", .rocm), ("sycl", .sycl), ("musa", .musa),
    ("cann", .cann), ("opencl", .opencl)]

/-- `_scan_backends`. -/
def scanBackends (text : Text) : List Backend :=
  firsts id [] ((backendTokens.filter fun x => has x.1 (lowered text)).map Prod.snd)

/-- What `llama-server` answers; it is asked again if it says nothing. -/
structure LlamaServer where
  isFile : Bool
  version : Option (ℤ × Text)
  versionAgain : Option (ℤ × Text)
  listDevices : Option (ℤ × Text)

/-- The backends of `llama_version_info`. -/
def llamaVersionInfo (L : LlamaServer) : List Backend :=
  if L.isFile then
    let output (r : Option (ℤ × Text)) : Text := (r.map Prod.snd).getD []
    let out := if stripped (output L.version) = [] then output L.versionAgain else output L.version
    if scanBackends out = [] then scanBackends (output L.listDevices) else scanBackends out
  else []

/-- `select_backend`; `none` is `cpu`. -/
def selectBackend (accels : List Accel) (compiled : List Backend) : Option Backend :=
  let available := (accels.filter Accel.usableForLlm).flatMap Accel.backends
  let candidates := backendPriority.filter (· ∈ available)
  if candidates = [] then none
  else if compiled ≠ [] then (candidates.filter (· ∈ compiled)).head?
  else candidates.head?

/-! ### What `vulkaninfo` prints -/

section Vulkaninfo

variable {T}

/-- A line that neither begins nor ends heaps and gives no size. -/
def Plain (T : Probe) (line : Text) : Prop :=
  has "memoryHeaps[" line = false ∧ has "memoryTypes" line = false ∧ sizeOf? T line = none

/-- A memory heap as it is printed: the line that begins it, its size, and what else is said of it. -/
structure Heap (T : Probe) where
  header : Text
  before : List Text
  sizeLine : Text
  size : ℕ
  flags : List Text
  header_begins : has "memoryHeaps[" header = true
  before_plain : ∀ line ∈ before, Plain T line
  sizeLine_stays : has "memoryHeaps[" sizeLine = false ∧ has "memoryTypes" sizeLine = false
  sizeLine_size : sizeOf? T sizeLine = some size
  flags_plain : ∀ line ∈ flags, Plain T line

/-- A device as it is printed: its heaps, then its memory types, with anything else around them. -/
structure Printed (T : Probe) where
  before : List Text
  heaps : List (Heap T)
  types : Text
  after : List Text
  before_outside : ∀ line ∈ before, has "memoryHeaps[" line = false
  types_ends : has "memoryHeaps[" types = false ∧ has "memoryTypes" types = true
  after_outside : ∀ line ∈ after, has "memoryHeaps[" line = false

namespace Heap

variable (h : Heap T)

/-- The lines of a heap. -/
def lines : List Text := h.header :: (h.before ++ h.sizeLine :: h.flags)

/-- The heap is local to its device. -/
def deviceLocal : Bool := h.flags.any (has "DEVICE_LOCAL")

/-- Its size in MiB. -/
def mb : ℕ := h.size / (1024 * 1024)

end Heap

/-- The lines of a device. -/
def Printed.lines (d : Printed T) : List Text := d.before ++ d.heaps.flatMap Heap.lines ++ d.types :: d.after

/-- The sizes of the heaps that are local to one of the devices. -/
def localSizes (doc : List (Printed T)) : List ℕ := ((doc.flatMap Printed.heaps).filter Heap.deviceLocal).map Heap.mb

theorem foldl_keep_some {α : Type*} [Max α] (b : α) (l : List α) : l.foldl keep (some b) = some (l.foldl max b) := by
  induction l generalizing b with
  | nil => rfl
  | cons a l ih => exact ih (max b a)

/-- The loop keeps the greatest. -/
theorem foldl_keep_none {α : Type*} [Max α] (l : List α) : l.foldl keep none = l.max? := by
  cases l with
  | nil => rfl
  | cons a l => exact foldl_keep_some a l

variable {best : Option ℕ} {size : Option ℕ}

/-- Outside the heaps nothing is read. -/
theorem foldl_outside {lines : List Text} (h : ∀ line ∈ lines, has "memoryHeaps[" line = false) :
    lines.foldl (heapLine T) ⟨best, false, size⟩ = ⟨best, false, size⟩ := by
  induction lines with
  | nil => rfl
  | cons line lines ih =>
    have hline : heapLine T ⟨best, false, size⟩ line = ⟨best, false, size⟩ := by
      simp [heapLine, h line List.mem_cons_self]
    rw [List.foldl_cons, hline]
    exact ih fun l hl => h l (List.mem_cons_of_mem _ hl)

theorem heapLine_plain {line : Text} (h : Plain T line) : heapLine T ⟨best, true, size⟩ line =
    if has "DEVICE_LOCAL" line then
      match size with
      | some size => ⟨keep best (size / (1024 * 1024)), true, none⟩
      | none => ⟨best, true, none⟩
    else ⟨best, true, size⟩ := by
  simp only [heapLine, h.1, h.2.1, h.2.2, Bool.false_eq_true, if_false, Bool.not_true]
  cases size <;> rfl

/-- Before its size, or after it has counted, a heap's flags say nothing. -/
theorem foldl_plain_none {lines : List Text} (h : ∀ line ∈ lines, Plain T line) :
    lines.foldl (heapLine T) ⟨best, true, none⟩ = ⟨best, true, none⟩ := by
  induction lines with
  | nil => rfl
  | cons line lines ih =>
    have hline : heapLine T ⟨best, true, none⟩ line = ⟨best, true, none⟩ := by
      rw [heapLine_plain (h line List.mem_cons_self)]
      split_ifs <;> rfl
    rw [List.foldl_cons, hline]
    exact ih fun l hl => h l (List.mem_cons_of_mem _ hl)

/-- After its size a heap counts if a flag says that it is local, and counts once. -/
theorem foldl_plain_some {n : ℕ} {lines : List Text} (h : ∀ line ∈ lines, Plain T line) :
    lines.foldl (heapLine T) ⟨best, true, some n⟩ =
      if lines.any (has "DEVICE_LOCAL") then ⟨keep best (n / (1024 * 1024)), true, none⟩ else ⟨best, true, some n⟩ := by
  induction lines with
  | nil => rfl
  | cons line lines ih =>
    have hrest : ∀ l ∈ lines, Plain T l := fun l hl => h l (List.mem_cons_of_mem _ hl)
    rw [List.foldl_cons, heapLine_plain (h line List.mem_cons_self), List.any_cons]
    by_cases hlocal : has "DEVICE_LOCAL" line = true
    · rw [if_pos hlocal, hlocal, Bool.true_or, if_pos rfl]
      exact foldl_plain_none hrest
    · rw [if_neg hlocal, ih hrest, Bool.eq_false_iff.mpr hlocal, Bool.false_or]

/-- A heap is read. -/
theorem foldl_heap (h : Heap T) (st : Heaps) : ∃ size, h.lines.foldl (heapLine T) st =
    ⟨if h.deviceLocal then keep st.best h.mb else st.best, true, size⟩ := by
  have hheader : heapLine T st h.header = ⟨st.best, true, none⟩ := by
    rw [heapLine, if_pos h.header_begins]
  have hsize : heapLine T ⟨st.best, true, none⟩ h.sizeLine = ⟨st.best, true, some h.size⟩ := by
    simp [heapLine, h.sizeLine_stays.1, h.sizeLine_stays.2, h.sizeLine_size]
  rw [Heap.lines, List.foldl_cons, hheader, List.foldl_append, foldl_plain_none h.before_plain, List.foldl_cons, hsize,
    foldl_plain_some h.flags_plain, Heap.deviceLocal]
  split_ifs
  · exact ⟨none, rfl⟩
  · exact ⟨some h.size, rfl⟩

/-- The heaps of a device are read. -/
theorem foldl_heaps (hs : List (Heap T)) (st : Heaps) : ∃ size, (hs.flatMap Heap.lines).foldl (heapLine T) st =
    ⟨((hs.filter Heap.deviceLocal).map Heap.mb).foldl keep st.best, if hs = [] then st.inHeaps else true,
      if hs = [] then st.size else size⟩ := by
  induction hs generalizing st with
  | nil => exact ⟨none, rfl⟩
  | cons h hs ih =>
    obtain ⟨size, hsize⟩ := foldl_heap h st
    obtain ⟨size', hsize'⟩ := ih ⟨if h.deviceLocal then keep st.best h.mb else st.best, true, size⟩
    refine ⟨if hs = [] then size else size', ?_⟩
    rw [List.flatMap_cons, List.foldl_append, hsize, hsize', List.filter_cons]
    by_cases hlocal : h.deviceLocal = true
    · simp [hlocal]
    · simp [hlocal]

/-- A device is read. -/
theorem foldl_printed (d : Printed T) (best : Option ℕ) : d.lines.foldl (heapLine T) ⟨best, false, none⟩ =
    ⟨((d.heaps.filter Heap.deviceLocal).map Heap.mb).foldl keep best, false, none⟩ := by
  obtain ⟨size, hheaps⟩ := foldl_heaps d.heaps ⟨best, false, none⟩
  have htypes : ∀ b inHeaps size, (inHeaps = false → size = none) →
      heapLine T ⟨b, inHeaps, size⟩ d.types = ⟨b, false, none⟩ := by
    intro b inHeaps size hout
    cases inHeaps with
    | false => simp [heapLine, d.types_ends.1, hout rfl]
    | true => simp [heapLine, d.types_ends.1, d.types_ends.2]
  rw [Printed.lines, List.foldl_append, List.foldl_append, foldl_outside d.before_outside, hheaps, List.foldl_cons, htypes,
    foldl_outside d.after_outside]
  by_cases hnil : d.heaps = []
  · simp [hnil]
  · simp [hnil]

theorem foldl_doc (doc : List (Printed T)) (best : Option ℕ) : (doc.flatMap Printed.lines).foldl (heapLine T) ⟨best, false, none⟩ =
    ⟨(localSizes doc).foldl keep best, false, none⟩ := by
  induction doc generalizing best with
  | nil => rfl
  | cons d doc ih =>
    rw [List.flatMap_cons, List.foldl_append, foldl_printed, ih, localSizes, localSizes, List.flatMap_cons, List.filter_append,
      List.map_append, List.foldl_append]

/-- **The largest heap that is local to a device is found**, of everything that `vulkaninfo` prints. -/
theorem vulkaninfoMaxDeviceLocalMb_eq {rc : ℤ} {out : Text} (doc : List (Printed T)) (hwhich : T.which "vulkaninfo" = true)
    (hrun : T.run ["vulkaninfo"] = some (rc, out)) (hout : linesOf out = doc.flatMap Printed.lines) :
    vulkaninfoMaxDeviceLocalMb T = (localSizes doc).max? := by
  rw [vulkaninfoMaxDeviceLocalMb, if_pos hwhich, hrun]
  dsimp only
  rw [hout, foldl_doc, foldl_keep_none]

/-- A card with 8 GiB of its own, next to 16 GiB that it shares. -/
def cardLines : List String :=
  ["GPU0:", "memoryHeaps[0]:", "  size = 8589934592", "    MEMORY_HEAP_DEVICE_LOCAL_BIT", "memoryHeaps[1]:",
    "  size = 17179869184", "    None", "memoryTypes: count = 1", "    MEMORY_PROPERTY_DEVICE_LOCAL_BIT"]

/-- A host with the card, and no tool but `vulkaninfo`. -/
def cardHost : Probe where
  isWindows := false
  which := (· = "vulkaninfo")
  run argv := if argv = ["vulkaninfo"] then some (0, (["\n"].intercalate (cardLines.map fun l => [l])).flatMap String.toList) else none
  vramTotals := []
  accel := false
  decimal := PyText.asciiDecimal

/-- What is printed of the card. -/
def card : Printed cardHost where
  before := ["GPU0:".toList]
  heaps :=
    [{ header := "memoryHeaps[0]:".toList
       before := []
       sizeLine := "  size = 8589934592".toList
       size := 8589934592
       flags := ["    MEMORY_HEAP_DEVICE_LOCAL_BIT".toList]
       header_begins := by decide +kernel
       before_plain := nofun
       sizeLine_stays := by decide +kernel
       sizeLine_size := by decide +kernel
       flags_plain := List.forall_mem_singleton.mpr (by unfold Plain; decide +kernel) },
     { header := "memoryHeaps[1]:".toList
       before := []
       sizeLine := "  size = 17179869184".toList
       size := 17179869184
       flags := ["    None".toList]
       header_begins := by decide +kernel
       before_plain := nofun
       sizeLine_stays := by decide +kernel
       sizeLine_size := by decide +kernel
       flags_plain := List.forall_mem_singleton.mpr (by unfold Plain; decide +kernel) }]
  types := "memoryTypes: count = 1".toList
  after := ["    MEMORY_PROPERTY_DEVICE_LOCAL_BIT".toList]
  before_outside := List.forall_mem_singleton.mpr (by decide +kernel)
  types_ends := by decide +kernel
  after_outside := List.forall_mem_singleton.mpr (by decide +kernel)

theorem vulkaninfoMaxDeviceLocalMb_cardHost : vulkaninfoMaxDeviceLocalMb cardHost = some 8192 :=
  (vulkaninfoMaxDeviceLocalMb_eq [card] rfl rfl (by decide +kernel)).trans (by decide +kernel)

end Vulkaninfo

/-! ### The memory of the devices -/

section Memory

/-- What `nvidia-smi` reports, in MiB. -/
def nvidiaMb : List ℤ :=
  if T.which "nvidia-smi" then
    match T.run nvidiaQuery with
    | some (0, out) => (numbersOf T out).map Int.ofNat
    | _ => []
  else []

/-- What the registry of Windows says, or what the files of Linux say, in MiB. -/
def systemMb : List ℤ :=
  if T.isWindows then
    match T.run registryQuery with
    | some (0, out) => (numbersOf T out).map fun bytes => ((bytes / (1024 * 1024) : ℕ) : ℤ)
    | _ => []
  else T.vramTotals.filterMap fun bytes => bytes.map (· / (1024 * 1024))

variable {T} {α β : Type*} [LinearOrder α] [LinearOrder β]

theorem foldl_keep (best : Option α) (l : List α) : l.foldl keep best = l.max?.elim best (keep best) := by
  cases best with
  | none =>
    rw [foldl_keep_none]
    cases l.max? <;> rfl
  | some b =>
    rw [foldl_keep_some, ← Option.some_inj.mpr rfl, ← List.max?_cons', List.max?_cons]
    cases l.max? <;> rfl

/-- The greatest of what the tools report is kept, tool after tool. -/
theorem max?_append (l l' : List α) : (l ++ l').max? = l'.foldl keep l.max? := by
  rw [← foldl_keep_none, List.foldl_append, foldl_keep_none]

theorem max?_map_of_monotone {f : α → β} (hf : Monotone f) (l : List α) : (l.map f).max? = l.max?.map f := by
  induction l with
  | nil => rfl
  | cons a l ih =>
    rw [List.map_cons, List.max?_cons, List.max?_cons, ih]
    cases l.max? with
    | none => rfl
    | some b => exact congrArg some (hf.map_max).symm

/-- **The memory that is found** is that of the scan of `vulkaninfo`, and else the greatest that a tool reports. -/
theorem detectVramMb_eq (T : Probe) : detectVramMb T = match vulkaninfoMaxDeviceLocalMb T with
    | some mb => some (mb : ℤ)
    | none => (nvidiaMb T ++ systemMb T).max? := by
  rw [detectVramMb]
  cases vulkaninfoMaxDeviceLocalMb T with
  | some mb => rfl
  | none =>
    have hbest : (if T.which "nvidia-smi" then
        match T.run nvidiaQuery with
        | some (0, out) => ((numbersOf T out).map Int.ofNat).max?
        | _ => none
      else none) = (nvidiaMb T).max? := by
      rw [nvidiaMb]
      split_ifs
      · split <;> rfl
      · rfl
    dsimp only
    rw [hbest, max?_append]
    generalize (nvidiaMb T).max? = best
    rw [systemMb]
    cases T.isWindows with
    | true =>
      have hdiv : Monotone fun bytes : ℕ => ((bytes / (1024 * 1024) : ℕ) : ℤ) :=
        fun a b h => Int.ofNat_le.mpr (Nat.div_le_div_right h)
      rw [if_pos rfl, if_pos rfl]
      split
      · next out _ =>
        rw [foldl_keep, max?_map_of_monotone hdiv]
        cases (numbersOf T out).max? <;> rfl
      · rfl
    | false =>
      rw [if_neg Bool.false_ne_true, if_neg Bool.false_ne_true, List.foldl_filterMap]
      congr 1
      funext best bytes
      cases bytes <;> rfl

end Memory

/-! ### Which backend is selected -/

section Selection

/-- The host has a graphics device that a tool names. -/
def HasGpu : Prop :=
  T.which "nvidia-smi" ∨ (T.which "rocminfo" ∨ T.which "rocm-smi") ∨ (T.which "sycl-ls" ∨ T.which "xpu-smi") ∨
    detectVulkanDevices T ≠ [] ∨ detectOsGpus T ≠ []

/-- The host has what a backend needs. -/
def Offers : Backend → Prop
  | .cuda => T.which "nvidia-smi" = true
  | .rocm => T.which "rocminfo" = true ∨ T.which "rocm-smi" = true
  | .sycl => T.which "sycl-ls" = true ∨ T.which "xpu-smi" = true
  | .vulkan => HasGpu T
  | .opencl => False
  | .cann => T.which "npu-smi" = true
  | .musa => T.which "mthreads-gmi" = true

/-- A backend can serve: the host has what it needs, and it is compiled as far as one knows. -/
def CanServe (compiled : List Backend) (b : Backend) : Prop := Offers T b ∧ (compiled = [] ∨ b ∈ compiled)

/-- The place of a backend in `BACKEND_PRIORITY`. -/
def rank (b : Backend) : ℕ := backendPriority.idxOf b

variable {T}

/-- The backends of the accelerators that can be used. -/
def available (accels : List Accel) : List Backend := (accels.filter Accel.usableForLlm).flatMap Accel.backends

theorem mem_available {accels : List Accel} {b : Backend} :
    b ∈ available accels ↔ ∃ a ∈ accels, a.usableForLlm = true ∧ b ∈ a.backends := by
  simp only [available, List.mem_flatMap, List.mem_filter, and_assoc]

theorem available_append (as as' : List Accel) : available (as ++ as') = available as ++ available as' := by
  rw [available, List.filter_append, List.flatMap_append]
  rfl

/-- An accelerator that is there if a tool is. -/
theorem mem_available_ite {p : Bool} {a : Accel} {b : Backend} (ha : a.usableForLlm = true) :
    b ∈ available (if p then [a] else []) ↔ p = true ∧ b ∈ a.backends := by
  cases p with
  | false => simp [available]
  | true => simp [available, ha]

theorem available_ite_of_not {p : Bool} {a : Accel} (ha : a.usableForLlm = false) : available (if p then [a] else []) = [] := by
  cases p with
  | false => rfl
  | true => simp [available, ha]

/-- What the tools of the vendors offer. -/
theorem mem_available_toolAccels {b : Backend} : b ∈ available (toolAccels T) ↔
    (T.which "nvidia-smi" = true ∧ b ∈ [Backend.cuda, .vulkan]) ∨
      ((T.which "rocminfo" = true ∨ T.which "rocm-smi" = true) ∧ b ∈ [Backend.rocm, .vulkan]) ∨
        ((T.which "sycl-ls" = true ∨ T.which "xpu-smi" = true) ∧ b ∈ [Backend.sycl, .vulkan]) := by
  have hnames : ∀ names : List Text, (if names = [] then ["NVIDIA GPU".toList] else names) ≠ [] := by
    intro names
    split_ifs with h
    · exact List.cons_ne_nil _ _
    · exact h
  have hsame : ∀ (v : Vendor) (bs : List Backend) (names : List Text), names ≠ [] →
      (b ∈ available (names.map fun n => ⟨v, n, 1, bs, true⟩) ↔ b ∈ bs) := by
    intro v bs names hne
    rw [mem_available]
    constructor
    · rintro ⟨a, ha, -, hb⟩
      obtain ⟨n, -, rfl⟩ := List.mem_map.mp ha
      exact hb
    · intro hb
      obtain ⟨n, hn⟩ := List.exists_mem_of_ne_nil names hne
      exact ⟨_, List.mem_map_of_mem hn, rfl, hb⟩
  rw [toolAccels, available_append, available_append, List.mem_append, List.mem_append, mem_available_ite rfl,
    mem_available_ite rfl, or_assoc, Bool.or_eq_true, Bool.or_eq_true]
  refine or_congr ?_ Iff.rfl
  by_cases hn : T.which "nvidia-smi" = true
  · rw [if_pos hn, hsame _ _ _ (hnames _)]
    exact ⟨fun hb => ⟨hn, hb⟩, fun hb => hb.2⟩
  · rw [if_neg hn]
    exact ⟨fun hb => absurd hb List.not_mem_nil, fun hb => absurd hb.1 hn⟩

/-- What a vendor's tool names can be used, with Vulkan too. -/
theorem vulkan_of_mem_toolAccels {a : Accel} (h : a ∈ toolAccels T) : a.usableForLlm = true ∧ Backend.vulkan ∈ a.backends := by
  rw [toolAccels, List.mem_append, List.mem_append] at h
  rcases h with (h | h) | h
  · split_ifs at h
    · obtain ⟨n, -, rfl⟩ := List.mem_map.mp h
      exact ⟨rfl, List.mem_cons_of_mem _ List.mem_cons_self⟩
    · cases h
  · split_ifs at h
    · obtain rfl := List.mem_singleton.mp h
      exact ⟨rfl, by decide⟩
    · cases h
  · split_ifs at h
    · obtain rfl := List.mem_singleton.mp h
      exact ⟨rfl, by decide⟩
    · cases h

/-- The devices that no vendor's tool names. -/
def genericAccels (T : Probe) : List Accel :=
  ((firsts Device.vendor [] (detectVulkanDevices T ++ detectOsGpus T)).filter fun d =>
    d.vendor ∉ (toolAccels T).map Accel.vendor).map fun d => ⟨d.vendor, d.device, 1, [.vulkan], true⟩

theorem mem_available_genericAccels {b : Backend} (h : b ∈ available (genericAccels T)) :
    b = .vulkan ∧ detectVulkanDevices T ++ detectOsGpus T ≠ [] := by
  obtain ⟨a, ha, -, hb⟩ := mem_available.mp h
  obtain ⟨d, hd, rfl⟩ := List.mem_map.mp ha
  refine ⟨List.mem_singleton.mp hb, fun hnil => ?_⟩
  rw [hnil, firsts_nil] at hd
  cases hd

/-- A device that is named is offered with Vulkan, by a vendor's tool or without. -/
theorem vulkan_mem_available (h : detectVulkanDevices T ++ detectOsGpus T ≠ []) :
    Backend.vulkan ∈ available (toolAccels T) ∨ Backend.vulkan ∈ available (genericAccels T) := by
  obtain ⟨d, ds, hds⟩ := List.exists_cons_of_ne_nil h
  have hfirst : d ∈ firsts Device.vendor [] (detectVulkanDevices T ++ detectOsGpus T) := by
    rw [hds, firsts_cons, if_neg List.not_mem_nil]
    exact List.mem_cons_self
  by_cases hseen : d.vendor ∈ (toolAccels T).map Accel.vendor
  · obtain ⟨a, ha, -⟩ := List.mem_map.mp hseen
    exact .inl (mem_available.mpr ⟨a, ha, vulkan_of_mem_toolAccels ha⟩)
  · have hgeneric : d ∈ (firsts Device.vendor [] (detectVulkanDevices T ++ detectOsGpus T)).filter fun d =>
        d.vendor ∉ (toolAccels T).map Accel.vendor := List.mem_filter.mpr ⟨hfirst, decide_eq_true hseen⟩
    exact .inr (mem_available.mpr ⟨_, List.mem_map_of_mem hgeneric, rfl, List.mem_singleton_self _⟩)

/-- **What the accelerators of a host offer is what the host offers.** -/
theorem mem_available_detectAccelerators {b : Backend} : b ∈ available (detectAccelerators T) ↔ Offers T b := by
  have hall : available (detectAccelerators T) = available (toolAccels T) ++ available (genericAccels T) ++
      available (if T.which "npu-smi" then [⟨.huawei, "Ascend NPU".toList, 1, [.cann], true⟩] else []) ++
      available (if T.which "mthreads-gmi" then [⟨.moorethreads, "MTT GPU".toList, 1, [.musa], true⟩] else []) := by
    have hnpu : available (if !T.isWindows && T.accel then [⟨.intel, "NPU".toList, 2, [], false⟩] else []) = [] :=
      available_ite_of_not rfl
    have hhailo : available (if T.which "hailortcli" then [⟨.hailo, "Hailo".toList, 3, [], false⟩] else []) = [] :=
      available_ite_of_not rfl
    have hgaudi : available (if T.which "hl-smi" then [⟨.intel, "Gaudi".toList, 3, [], false⟩] else []) = [] :=
      available_ite_of_not rfl
    rw [detectAccelerators, available_append, available_append, available_append, available_append, available_append, available_append,
      hnpu, hhailo, hgaudi, List.append_nil, List.append_nil, List.append_nil]
    rfl
  rw [hall, List.mem_append, List.mem_append, List.mem_append, mem_available_ite rfl, mem_available_ite rfl,
    mem_available_toolAccels]
  have hgeneric : b ≠ .vulkan → b ∉ available (genericAccels T) := fun hne hb => hne (mem_available_genericAccels hb).1
  cases b with
  | vulkan =>
    rw [Offers, HasGpu]
    constructor
    · rintro (((htools | hgen) | hnpu) | hmt)
      · rcases htools with h | h | h
        · exact .inl h.1
        · exact .inr (.inl h.1)
        · exact .inr (.inr (.inl h.1))
      · have hne := (mem_available_genericAccels hgen).2
        rw [Ne, List.append_eq_nil_iff, not_and_or] at hne
        exact .inr (.inr (.inr hne))
      · exact absurd hnpu.2 (by decide)
      · exact absurd hmt.2 (by decide)
    · rintro (h | h | h | h)
      · exact .inl (.inl (.inl (.inl ⟨h, by decide⟩)))
      · exact .inl (.inl (.inl (.inr (.inl ⟨h, by decide⟩))))
      · exact .inl (.inl (.inl (.inr (.inr ⟨h, by decide⟩))))
      · have hne : detectVulkanDevices T ++ detectOsGpus T ≠ [] := by
          rw [Ne, List.append_eq_nil_iff, not_and_or]
          exact h
        rcases vulkan_mem_available hne with h | h
        · exact .inl (.inl (.inl (mem_available_toolAccels.mp h)))
        · exact .inl (.inl (.inr h))
  | cuda => simp [hgeneric, Offers]
  | rocm => simp [hgeneric, Offers]
  | sycl => simp [hgeneric, Offers]
  | opencl => simp [hgeneric, Offers]
  | cann => simp [hgeneric, Offers]
  | musa => simp [hgeneric, Offers]

/-- The first item of a list with a property stands before all the others. -/
theorem head?_filter_eq_some_iff {α : Type*} [DecidableEq α] {p : α → Bool} {l : List α} {b : α} :
    (l.filter p).head? = some b ↔ b ∈ l ∧ p b = true ∧ ∀ c ∈ l, p c = true → l.idxOf b ≤ l.idxOf c := by
  induction l with
  | nil => simp
  | cons a l ih =>
    rw [List.filter_cons]
    by_cases ha : p a = true
    · rw [if_pos ha, List.head?_cons, Option.some.injEq]
      constructor
      · rintro rfl
        refine ⟨List.mem_cons_self, ha, fun c _ _ => ?_⟩
        rw [List.idxOf_cons_self]
        exact Nat.zero_le _
      · rintro ⟨-, -, hmin⟩
        have hzero := hmin a List.mem_cons_self ha
        rw [List.idxOf_cons_self, List.idxOf_cons] at hzero
        by_contra hne
        rw [beq_eq_false_iff_ne.mpr hne, cond_false] at hzero
        omega
    · rw [if_neg ha, ih]
      have hne : ∀ {c}, p c = true → a ≠ c := by
        rintro c hc rfl
        exact ha hc
      have hidx : ∀ {c}, p c = true → (a :: l).idxOf c = l.idxOf c + 1 := fun hc => List.idxOf_cons_ne l (hne hc)
      constructor
      · rintro ⟨hb, hpb, hmin⟩
        refine ⟨List.mem_cons_of_mem _ hb, hpb, fun c hc hpc => ?_⟩
        have hcl := (List.mem_cons.mp hc).resolve_left (Ne.symm (hne hpc))
        rw [hidx hpb, hidx hpc]
        exact Nat.succ_le_succ (hmin c hcl hpc)
      · rintro ⟨hb, hpb, hmin⟩
        refine ⟨(List.mem_cons.mp hb).resolve_left (Ne.symm (hne hpb)), hpb, fun c hc hpc => ?_⟩
        have hle := hmin c (List.mem_cons_of_mem _ hc) hpc
        rw [hidx hpb, hidx hpc] at hle
        exact Nat.le_of_succ_le_succ hle

theorem mem_backendPriority (b : Backend) : b ∈ backendPriority := by cases b <;> decide

/-- The candidates that are compiled, in their order. -/
theorem selectBackend_eq (accels : List Accel) (compiled : List Backend) : selectBackend accels compiled =
    (backendPriority.filter fun b => decide (b ∈ available accels ∧ (compiled = [] ∨ b ∈ compiled))).head? := by
  have hsub : (backendPriority.filter fun b => decide (b ∈ available accels ∧ (compiled = [] ∨ b ∈ compiled))) =
      (backendPriority.filter fun b => decide (b ∈ available accels)).filter fun b => decide (compiled = [] ∨ b ∈ compiled) := by
    rw [List.filter_filter]
    exact List.filter_congr fun b _ => by rw [Bool.decide_and, Bool.and_comm]
  rw [hsub, selectBackend]
  show (if (backendPriority.filter fun b => decide (b ∈ available accels)) = [] then none
    else if compiled ≠ [] then
      ((backendPriority.filter fun b => decide (b ∈ available accels)).filter fun b => decide (b ∈ compiled)).head?
    else (backendPriority.filter fun b => decide (b ∈ available accels)).head?) = _
  split_ifs with hnone hcompiled
  · rw [hnone]
    rfl
  · have hne : ∀ b : Backend, (compiled = [] ∨ b ∈ compiled) ↔ b ∈ compiled := fun b => or_iff_right hcompiled
    simp only [hne]
  · have hnil : compiled = [] := not_not.mp hcompiled
    simp [hnil]

/-- An accelerator that can be used has a backend. -/
theorem exists_backend {a : Accel} (h : a ∈ detectAccelerators T) (husable : a.usableForLlm = true) : ∃ b, b ∈ a.backends := by
  have hone : ∀ {p : Bool} {a' : Accel}, a ∈ (if p then [a'] else []) → a = a' := by
    intro p a' ha
    split_ifs at ha
    · exact List.mem_singleton.mp ha
    · cases ha
  rw [detectAccelerators] at h
  simp only [List.mem_append] at h
  rcases h with (((((h | h) | h) | h) | h) | h) | h
  · exact ⟨_, (vulkan_of_mem_toolAccels h).2⟩
  · obtain ⟨d, -, rfl⟩ := List.mem_map.mp h
    exact ⟨_, List.mem_singleton_self _⟩
  · obtain rfl := hone h
    exact ⟨_, List.mem_singleton_self _⟩
  · obtain rfl := hone h
    exact ⟨_, List.mem_singleton_self _⟩
  · obtain rfl := hone h
    cases husable
  · obtain rfl := hone h
    cases husable
  · obtain rfl := hone h
    cases husable

/-- No accelerator can be used exactly when no backend is offered. -/
theorem no_usable_iff (T : Probe) : (detectAccelerators T).filter Accel.usableForLlm = [] ↔ ∀ b, ¬ Offers T b := by
  rw [List.filter_eq_nil_iff]
  constructor
  · intro h b hb
    obtain ⟨a, ha, husable, -⟩ := mem_available.mp (mem_available_detectAccelerators.mpr hb)
    exact h a ha husable
  · intro h a ha husable
    obtain ⟨b, hb⟩ := exists_backend ha husable
    exact h b (mem_available_detectAccelerators.mp (mem_available.mpr ⟨a, ha, husable, hb⟩))

/-- **The backend that is selected** is the first in `BACKEND_PRIORITY` of those that the host offers and that are
compiled; and there is none, the memory model is `cpu` and no accelerator is usable, all at once when no backend is
offered. -/
theorem accelerators_agree (T : Probe) :
    (∀ compiled b, selectBackend (detectAccelerators T) compiled = some b ↔
      CanServe T compiled b ∧ ∀ c, CanServe T compiled c → rank b ≤ rank c) ∧
    (∀ compiled, selectBackend (detectAccelerators T) compiled = none ↔ ∀ b, ¬ CanServe T compiled b) ∧
    (detectMemoryModel T (detectAccelerators T) = .cpu ↔ ∀ b, ¬ Offers T b) ∧
    ((detectAccelerators T).any Accel.usableForLlm = false ↔ ∀ b, ¬ Offers T b) := by
  have hserve : ∀ compiled b, (decide (b ∈ available (detectAccelerators T) ∧ (compiled = [] ∨ b ∈ compiled)) = true) ↔
      CanServe T compiled b := by
    intro compiled b
    rw [decide_eq_true_eq, CanServe, mem_available_detectAccelerators]
  refine ⟨fun compiled b => ?_, fun compiled => ?_, ?_, ?_⟩
  · rw [selectBackend_eq, head?_filter_eq_some_iff]
    constructor
    · rintro ⟨-, hb, hmin⟩
      exact ⟨(hserve compiled b).mp hb, fun c hc => hmin c (mem_backendPriority c) ((hserve compiled c).mpr hc)⟩
    · rintro ⟨hb, hmin⟩
      exact ⟨mem_backendPriority b, (hserve compiled b).mpr hb, fun c _ hc => hmin c ((hserve compiled c).mp hc)⟩
  · rw [selectBackend_eq, List.head?_eq_none_iff, List.filter_eq_nil_iff]
    exact ⟨fun h b hb => h b (mem_backendPriority b) ((hserve compiled b).mpr hb), fun h b _ hb => h b ((hserve compiled b).mp hb)⟩
  · rw [← no_usable_iff, detectMemoryModel]
    constructor
    · intro h
      by_contra hne
      rw [if_neg hne] at h
      split_ifs at h
    · intro h
      rw [if_pos h]
  · rw [← no_usable_iff, List.any_eq_false, List.filter_eq_nil_iff]

/-- The output names the backend. -/
def Names (text : Text) (b : Backend) : Prop := ∃ token, (token, b) ∈ backendTokens ∧ has token (lowered text) = true

theorem mem_scanBackends {text : Text} {b : Backend} : b ∈ scanBackends text ↔ Names text b := by
  rw [scanBackends, mem_firsts_id, and_iff_left List.not_mem_nil, List.mem_map]
  constructor
  · rintro ⟨⟨token, b⟩, hmem, rfl⟩
    rw [List.mem_filter] at hmem
    exact ⟨token, hmem⟩
  · rintro ⟨token, hmem, hhas⟩
    exact ⟨(token, b), List.mem_filter.mpr ⟨hmem, hhas⟩, rfl⟩

/-- A backend that `llama-server` is taken to have is named in what it prints of its version, or else of its devices. -/
theorem names_of_mem_llamaVersionInfo {L : LlamaServer} {b : Backend} (h : b ∈ llamaVersionInfo L) :
    ∃ rc out, (L.version = some (rc, out) ∨ L.versionAgain = some (rc, out) ∨ L.listDevices = some (rc, out)) ∧ Names out b := by
  have hprinted : ∀ r : Option (ℤ × Text), b ∈ scanBackends ((r.map Prod.snd).getD []) → ∃ rc out, r = some (rc, out) ∧ Names out b := by
    intro r hr
    rcases r with _ | ⟨rc, out⟩
    · have hnil : scanBackends [] = [] := by decide
      rw [Option.map_none, Option.getD_none, hnil] at hr
      cases hr
    · exact ⟨rc, out, rfl, mem_scanBackends.mp hr⟩
  rw [llamaVersionInfo] at h
  cases hfile : L.isFile with
  | false =>
    rw [hfile, if_neg Bool.false_ne_true] at h
    cases h
  | true =>
    rw [hfile, if_pos rfl] at h
    dsimp only at h
    split_ifs at h
    · obtain ⟨rc, out, hr, hnames⟩ := hprinted _ h
      exact ⟨rc, out, .inr (.inr hr), hnames⟩
    · obtain ⟨rc, out, hr, hnames⟩ := hprinted _ h
      exact ⟨rc, out, .inr (.inl hr), hnames⟩
    · obtain ⟨rc, out, hr, hnames⟩ := hprinted _ h
      exact ⟨rc, out, .inr (.inr hr), hnames⟩
    · obtain ⟨rc, out, hr, hnames⟩ := hprinted _ h
      exact ⟨rc, out, .inl hr, hnames⟩

end Selection

end Persona.Manage
