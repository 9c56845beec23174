import CompanyBrain.Policy.ShellScan

namespace CompanyBrain.Policy

open Foundations

namespace Patterns

open Regex

def nameStart : Regex := chr fun c => c.isAlpha || c == '_'

def name : Regex := seq nameStart (many (chr isWordChar))

def assignment : Regex := all [textStart,name,lit '=']

def keyword : Regex :=
  all [textStart, alt (literal "if") <| alt (literal "then") <| alt (literal "elif") <| alt (literal "else") <|
      alt (literal "while") <| alt (literal "until") <| alt (literal "do") (lit '!'),
    textEnd]

def redirect : Regex :=
  all [textStart,many (chr Char.isDigit),
    alt (seq (lit '>') (opt (lit '>'))) <| alt (seq (lit '<') (opt (lit '<'))) <|
      alt (literal "<>") <| alt (literal ">&") (literal "<&")]

def redirectAlone : Regex := seq redirect textEnd

def redirectTo : Regex := seq redirect (plus dot)

def shellCommandFlag : Regex := all [textStart,lit '-',many (noneOf "-"),lit 'c']

def echoFlag : Regex := all [textStart,lit '-',plus (oneOf "neE"),textEnd]

def conversion : Regex := seq (lit '%') (group 1 (oneOf "%sb"))

def simpleValue : Regex := plus (chr fun c => isWordChar c || "./-".toList.contains c)

def simpleAssignment : Regex :=
  all [textStart,group 1 name,lit '=',group 2 simpleValue,textEnd]

def variableWord : Regex :=
  all [textStart,lit '$',alt (all [lit '\x7b',group 1 name,lit '\x7d']) (group 2 name),textEnd]

end Patterns

def texts (ss : List String) : List Text := ss.map String.toList

def shells : List Text := texts ["bash","sh","dash","zsh","ksh"]

def shellValueOptions : List Text := texts ["-O","-o","--rcfile","--init-file"]

def stdinScripts : List Text := texts ["-","/dev/stdin","/dev/fd/0","/proc/self/fd/0"]

def envOptions : List Text := texts ["-u","--unset","-C","--chdir","-S","--split-string"]

def envProducerOptions : List Text := texts ["-u","--unset","-C","--chdir"]

def execOptions : List Text := texts ["-a"]

def sudoOptions : List Text :=
  texts ["-u","--user","-g","--group","-h","--host","-p","--prompt","-C","--chdir",
    "-T","--command-timeout","-R","--chroot","-t","--type"]

def niceOptions : List Text := texts ["-n","--adjustment"]

def timeoutOptions : List Text := texts ["-s","--signal","-k","--kill-after"]

def timeOptions : List Text := texts ["-o","--output","-f","--format"]

def stdbufOptions : List Text := texts ["-i","--input","-o","--output","-e","--error"]

def xargsOptions : List Text :=
  texts ["-a","--arg-file","-d","--delimiter","-E","--eof","-I","--replace","-L",
    "--max-lines","-n","--max-args","-P","--max-procs","-s","--max-chars"]

def isAssignment (word : Text) : Bool := Patterns.assignment.test word

def commandStart : List Text → Nat
  | [] => 0
  | word :: words =>
    if isAssignment word || Patterns.keyword.test word then commandStart words+1
    else if Patterns.redirectAlone.test word then
      match words with
      | [] => 2
      | _ :: words => commandStart words + 2
    else if Patterns.redirectTo.test word then commandStart words+1
    else 0

def optionName (word : Text) : Text :=
  match cut '=' word with
  | none => word
  | some (name,value) => name ++ value.dropWhile fun c => !isLineTerminator c

def startsWith (pre : String) (word : Text) : Bool := pre.toList.isPrefixOf word

def takesValue (valueOptions : List Text) (word : Text) : Bool :=
  valueOptions.contains (optionName word) && !word.contains '='

def optionCommand : List Text → List Text → Nat
  | [], _ => 0
  | word :: words, valueOptions =>
    if word = "--".toList then 1
    else if !startsWith "-" word || word = "-".toList then 0
    else if takesValue valueOptions word then
      match words with
      | [] => 2
      | _ :: words => optionCommand words valueOptions + 2
    else optionCommand words valueOptions+1

def executableName (word : Text) : Text := (word.reverse.takeWhile (· ≠ '/')).reverse

def isSplitString (arg : Text) : Bool :=
  arg = "-S".toList || startsWith "-S" arg || arg = "--split-string".toList || startsWith "--split-string=" arg

def splitStringPayload (args : List Text) (split : Nat) : Option Text × List Text :=
  let arg := args[split]?.getD []
  let compact := startsWith "-S" arg && 2 < arg.length
  match cut '=' arg with
  | some (_,value) => (some value,args.drop (split+1))
  | none =>
    if compact then (some (arg.drop 2),args.drop (split+1))
    else (args[split+1]?,args.drop (split + 2))

def envSplitWords (args : List Text) : Except RangeError (Option (List Text)) :=
  match args.findIdx? isSplitString with
  | none => .ok none
  | some split =>
    match splitStringPayload args split with
    | (none,_) => .ok (some [])
    | (some value,rest) => do
      let scan ← scanShell (joinWith " ".toList (value :: rest))
      return some (scan.commands.headD [])

def finishSegment (segment : Text) (pipeline : List Text) : List Text :=
  if trim segment = [] then pipeline else pipeline ++ [trim segment]

def finishPipeline (segment : Text) (pipeline : List Text) : List (List Text) :=
  let pipeline := finishSegment segment pipeline
  if 1 < pipeline.length then [pipeline] else []

def pipelinesFrom : Option Char → Text → List Text → Text → List (List Text)
  | _, segment, pipeline, [] => finishPipeline segment pipeline
  | _, segment, pipeline, ['\\'] => finishPipeline (segment ++ ['\\']) pipeline
  | quote, segment, pipeline, '\\' :: c :: t =>
    pipelinesFrom quote (segment ++ ['\\',c]) pipeline t
  | some q, segment, pipeline, c :: t =>
    pipelinesFrom (if c = q then none else some q) (segment ++ [c]) pipeline t
  | none, segment, pipeline, '|' :: '|' :: t =>
    finishPipeline segment pipeline ++ pipelinesFrom none [] [] t
  | none, segment, pipeline, '&' :: '&' :: t =>
    finishPipeline segment pipeline ++ pipelinesFrom none [] [] t
  | none, segment, pipeline, '|' :: '&' :: t =>
    pipelinesFrom none [] (finishSegment segment pipeline) t
  | none, segment, pipeline, c :: t =>
    if c = '\'' || c = '"' || c = '`' then pipelinesFrom (some c) (segment ++ [c]) pipeline t
    else if c = '|' then pipelinesFrom none [] (finishSegment segment pipeline) t
    else if c = ';' || c = '\n' || c = '&' then
      finishPipeline segment pipeline ++ pipelinesFrom none [] [] t
    else pipelinesFrom none (segment ++ [c]) pipeline t

def shellPipelines (input : Text) : List (List Text) := pipelinesFrom none [] [] input

def wrapperNext (executable : Text) (args : List Text) : Option Nat :=
  if executable = "exec".toList then some (optionCommand args execOptions)
  else if executable = "sudo".toList then some (optionCommand args sudoOptions)
  else if executable = "nice".toList then some (optionCommand args niceOptions)
  else if executable = "timeout".toList then some (optionCommand args timeoutOptions+1)
  else if executable = "time".toList then some (optionCommand args timeOptions)
  else if executable = "nohup".toList then some (optionCommand args [])
  else none

def stdbufNext (executable : Text) (args : List Text) : Option Nat :=
  if executable = "stdbuf".toList then some (optionCommand args stdbufOptions) else none

def skipAssignments (args : List Text) : List Text := args.dropWhile isAssignment

def shellReadsStdin : List Text → Bool
  | [] => true
  | arg :: args =>
    if Patterns.shellCommandFlag.test arg then false
    else if arg = "-s".toList then true
    else if shellValueOptions.contains arg then
      match args with
      | [] => true
      | _ :: args => shellReadsStdin args
    else if arg = "--".toList then args.head?.all stdinScripts.contains
    else if !startsWith "-" arg || arg = "-".toList then stdinScripts.contains arg
    else shellReadsStdin args

-- Every call drops a word or rescans a shorter text, so this bounds the recursion.
def wordsWeight (words : List Text) : Nat := (words.map fun w => w.length+1).sum+1

def consumesStdinFrom : Nat → List Text → Except RangeError Bool
  | 0, _ => .ok false
  | n+1, words =>
    match words.drop (commandStart words) with
    | [] => .ok false
    | executableWord :: args =>
      let executable := executableName executableWord
      if shells.contains executable then .ok (shellReadsStdin args)
      else if executable = "env".toList then do
        match ← envSplitWords args with
        | some split => consumesStdinFrom n split
        | none => consumesStdinFrom n (skipAssignments (args.drop (optionCommand args envOptions)))
      else if executable = "command".toList then
        consumesStdinFrom n (args.drop (optionCommand args []))
      else
        match (wrapperNext executable args).or (stdbufNext executable args) with
        | some next => consumesStdinFrom n (args.drop next)
        | none => .ok false

def segmentConsumesShellStdin (words : List Text) : Except RangeError Bool :=
  consumesStdinFrom (wordsWeight words) words

def commandNext : List Text → Option (List Text)
  | [] => some []
  | arg :: args =>
    if arg = "--".toList then some args
    else if arg = "-v".toList || arg = "-V".toList then none
    else if arg = "-p".toList then commandNext args
    else some (arg :: args)

def echoOptions : Bool → List Text → Bool × List Text
  | decodeEscapes, [] => (decodeEscapes,[])
  | decodeEscapes, arg :: args =>
    if Patterns.echoFlag.test arg then
      let decodeEscapes := (arg.drop 1).foldl
        (fun b option => if option = 'e' then true else if option = 'E' then false else b)
        decodeEscapes
      echoOptions decodeEscapes args
    else (decodeEscapes,arg :: args)

def echoPayload (args : List Text) : Except RangeError Text :=
  let options := echoOptions false args
  let payload := joinWith " ".toList options.2
  if options.1 then decodeAnsiC payload else .ok payload

def renderFormat : List Span → List Text → Except RangeError (Text × List Text)
  | [], values => .ok ([],values)
  | .plain c :: spans, values => do
    let (rendered,values) ← renderFormat spans values
    return (c :: rendered,values)
  | .hit h :: spans, values => do
    if h.group 1 = some ['%'] then
      let (rendered,values) ← renderFormat spans values
      return ('%' :: rendered,values)
    else
      let value := values.headD []
      let shown ← if h.group 1 = some ['b'] then decodeAnsiC value else pure value
      let (rendered,values) ← renderFormat spans values.tail
      return (shown ++ rendered,values)

def printfPayload (format : Text) (values : List Text) : Except RangeError Text := do
  let (rendered,unused) ← renderFormat (Patterns.conversion.spans (← decodeAnsiC format)) values
  return joinWith "\n".toList (rendered :: unused ++ [joinWith " ".toList (format :: values)])

def literalProducerFrom : Nat → List Text → Except RangeError (Option Text)
  | 0, _ => .ok none
  | n+1, words =>
    match words.drop (commandStart words) with
    | [] => .ok none
    | executableWord :: args =>
      let executable := executableName executableWord
      if executable = "command".toList then
        match commandNext args with
        | none => .ok none
        | some rest => literalProducerFrom n rest
      else if executable = "builtin".toList then
        if args.head? = some "--".toList then literalProducerFrom n args.tail
        else if args.head?.any (startsWith "-") then .ok none
        else literalProducerFrom n args
      else if executable = "env".toList then do
        match ← envSplitWords args with
        | some split => literalProducerFrom n split
        | none =>
          literalProducerFrom n (skipAssignments (args.drop (optionCommand args envProducerOptions)))
      else
        match (wrapperNext executable args).or (stdbufNext executable args) with
        | some next => literalProducerFrom n (args.drop next)
        | none =>
          let args := if args.head? = some "--".toList then args.tail else args
          if executable = "echo".toList then some <$> echoPayload args
          else if executable = "printf".toList then
            match args with
            | [] => .ok none
            | format :: values => some <$> printfPayload format values
          else .ok none

def literalProducerPayload (words : List Text) : Except RangeError (Option Text) :=
  literalProducerFrom (wordsWeight words) words

def nonEmpty (payload : Option Text) : List Text := (truthy payload).toList

def pipedPayload (producer consumer : Text) : Except RangeError (List Text) := do
  match (← scanShell consumer).commands.head? with
  | none => return []
  | some words =>
    if ← segmentConsumesShellStdin words then
      match (← scanShell producer).commands.getLast? with
      | none => return []
      | some words => return nonEmpty (← literalProducerPayload words)
    else return []

def pipedShellPayloads (input : Text) : Except RangeError (List Text) := do
  let payloads ← (shellPipelines input).mapM fun pipeline =>
    (pipeline.zip pipeline.tail).mapM fun (producer,consumer) => pipedPayload producer consumer
  return payloads.flatten.flatten

def spaceHereStrings : Option Char → Text → Text
  | _, [] => []
  | _, ['\\'] => ['\\']
  | quote, '\\' :: c :: t => '\\' :: c :: spaceHereStrings quote t
  | some q, c :: t => c :: spaceHereStrings (if c = q then none else some q) t
  | none, '<' :: '<' :: '<' :: t => " <<< ".toList ++ spaceHereStrings none t
  | none, c :: t =>
    c :: spaceHereStrings (if c = '\'' || c = '"' || c = '`' then some c else none) t

def hereStringPayload (words : List Text) : Except RangeError (List Text) :=
  match words.findIdx? (· = "<<<".toList) with
  | none | some 0 => .ok []
  | some redirect => do
    if ← segmentConsumesShellStdin (words.take redirect) then
      return nonEmpty words[redirect+1]?
    else return []

def hereStringShellPayloads (input : Text) : Except RangeError (List Text) := do
  let scan ← scanShell (spaceHereStrings none input)
  return (← scan.commands.mapM hereStringPayload).flatten

def executableIndexFrom : Nat → List Text → Nat → Option Nat
  | 0, _, _ => none
  | n+1, words, offset =>
    let start := commandStart words
    match words.drop start with
    | [] => none
    | executableWord :: args =>
      let executable := executableName executableWord
      let next :=
        if executable = "command".toList then some (optionCommand args [])
        else if executable = "env".toList then
          let next := optionCommand args envOptions
          some (next + ((args.drop next).takeWhile isAssignment).length)
        else (wrapperNext executable args).or (stdbufNext executable args)
      match next with
      | none => some (offset + start)
      | some next => executableIndexFrom n (args.drop next) (offset + start+1 + next)

def executableIndex (words : List Text) : Option Nat :=
  executableIndexFrom (words.length+1) words 0

def recordAssignment (values : List (Text × Text)) (word : Text) : List (Text × Text) :=
  match Patterns.simpleAssignment.exec word with
  | none => values
  | some h => ((h.group 1).getD [],(h.group 2).getD []) :: values

def expandVariable (values : List (Text × Text)) (words : List Text) : List Text :=
  match executableIndex words with
  | none => []
  | some index =>
    let name := (Patterns.variableWord.exec (words[index]?.getD [])).bind fun h =>
      (h.group 1).or (h.group 2)
    match values.lookup (name.getD []) with
    | none => []
    | some value =>
      if value = [] then []
      else [joinWith " ".toList (words.take index ++ value :: words.drop (index+1))]

def variablePayloadsFrom : List (Text × Text) → List (List Text) → List Text
  | _, [] => []
  | values, words :: commands =>
    if words.length ≤ commandStart words then
      variablePayloadsFrom (words.foldl recordAssignment values) commands
    else expandVariable values words ++ variablePayloadsFrom values commands

def simpleVariablePayloads (input : Text) : Except RangeError (List Text) := do
  return variablePayloadsFrom [] (← scanShell input).commands

def shellPayload : List Text → List Text
  | [] => []
  | arg :: args =>
    if arg = "--".toList || !startsWith "-" arg then []
    else if shellValueOptions.contains arg then
      match args with
      | [] => []
      | _ :: args => shellPayload args
    else if Patterns.shellCommandFlag.test arg then args.take 1
    else shellPayload args

def segmentPayloadsFrom : Nat → List Text → List Text
  | 0, _ => []
  | n+1, words =>
    match words.drop (commandStart words) with
    | [] => []
    | executableWord :: args =>
      let executable := executableName executableWord
      if shells.contains executable then shellPayload args
      else if executable = "eval".toList then
        if args = [] then [] else [joinWith " ".toList args]
      else if executable = "env".toList then
        match args.findIdx? isSplitString with
        | some split =>
          match splitStringPayload args split with
          | (none,_) => []
          | (some value,rest) => [joinWith " ".toList (value :: rest)]
        | none => segmentPayloadsFrom n (skipAssignments (args.drop (optionCommand args envOptions)))
      else if executable = "command".toList then
        match commandNext args with
        | none => []
        | some rest => segmentPayloadsFrom n rest
      else if executable = "coproc".toList then segmentPayloadsFrom n args
      else if executable = "xargs".toList then
        segmentPayloadsFrom n (args.drop (optionCommand args xargsOptions))
      else
        match wrapperNext executable args with
        | some next => segmentPayloadsFrom n (args.drop next)
        | none => []

def segmentShellPayloads (words : List Text) : List Text :=
  segmentPayloadsFrom (words.length+1) words

def executedShellPayloads (input : Text) : Except RangeError (List Text) := do
  let scan ← scanShell input
  let piped ← pipedShellPayloads input
  let hereStrings ← hereStringShellPayloads input
  let expanded ← simpleVariablePayloads input
  return scan.nested ++ scan.commands.flatMap segmentShellPayloads ++ piped ++ hereStrings ++ expanded

end CompanyBrain.Policy
