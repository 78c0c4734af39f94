import JenKea.Import.Routes
import JenKea.Import.ToKea

/-!
# Options of a plan as entries of `option-data`

`_options_to_kea` of `jen/services/win_dhcp_import.py`. A value that is no value of its option is passed
over with a warning; nothing is converted that has not been checked.
-/

namespace JenKea.Import

open Subnets (OptType V4_OPTIONS)

/-- The name of a type. -/
def optTypeName (type : OptType) : String :=
  ((Subnets.optTypes.find? fun entry => entry.2 = type).map Prod.fst).getD ""

/-- `V4_OPTIONS.get(code)`. -/
def catalogEntry (code : ℤ) : Option (String × OptType) :=
  (V4_OPTIONS.find? fun entry => (entry.1 : ℤ) = code).map Prod.snd

/-- `_TIMER_CODES`. -/
def timerCodes : List (ℤ × String) :=
  [(51, "valid-lifetime"), (58, "renew-timer"), (59, "rebind-timer")]

/-- One of the raw options, with 249 under the code 121. -/
def mergeOption (raw : Options) (context : String) (st : Options × List String) (option : ℤ × String) :
    Options × List String :=
  let (merged, warnings) := st
  let (code, value) := option
  if code = 249 ∧ (raw.lookup 121).isSome then
    (merged, warnings ++ [context ++ ": option 249 present alongside 121 — 249 ignored"])
  else
    let realCode := if code = 249 then 121 else code
    let warnings := if code = 249 then warnings ++
        [context ++ ": option 249 (Microsoft classless-static-route) converted to standard 121"]
      else warnings
    if (merged.lookup realCode).isSome then
      (merged, warnings ++
        [context ++ ": duplicate option " ++ toString realCode ++ " — first value kept"])
    else (merged ++ [(realCode, value)], warnings)

/-- What is wrong with a value, and the value as it is written. -/
def checkedValue (type : OptType) (data : String) : Except String String :=
  match Subnets.validate (optTypeName type) data with
  | some why => .error why
  | none => .ok (Subnets.normalize (optTypeName type) data)

/-- An entry of `option-data`. -/
def optionEntry (name : String) (code : ℤ) (data : String) : Json :=
  .obj [("name", .str name), ("code", .int code), ("space", .str "dhcp4"), ("csv-format", .bool true),
    ("data", .str data)]

/-- One of the merged options. -/
def convertOption (context : String) (st : Converted) (option : ℤ × String) : Converted :=
  let (code, raw) := option
  let warn (line : String) (st : Converted) : Converted := { st with warnings := st.warnings ++ [line] }
  if code = 81 then
    if option81Warning ∈ st.warnings then st else warn option81Warning st
  else match timerCodes.lookup code with
  | some timer => { st with timers := st.timers ++ [(timer, raw)] }
  | none =>
    match catalogEntry code with
    | none => warn (context ++ ": skipped option " ++ toString code ++ " (not in Jen's catalog)") st
    | some (name, type) =>
      let (data, decodeWarnings) :=
        if type = .classlessRoutes then decodeClasslessRoutesHex raw context else (raw, [])
      let st := { st with warnings := st.warnings ++ decodeWarnings }
      if type = .classlessRoutes ∧ data = "" then st
      else match checkedValue type data with
      | .error why =>
        warn (context ++ ": skipped option " ++ toString code ++ " (" ++ name ++ ") — " ++ why) st
      | .ok value => { st with entries := st.entries ++ [optionEntry name code value] }

/-- `_options_to_kea`. -/
def optionsToKea : OptionsToKea := fun raw context =>
  let (merged, warnings) := raw.foldl (mergeOption raw context) ([], [])
  merged.foldl (convertOption context) ⟨[], [], warnings⟩

end JenKea.Import
