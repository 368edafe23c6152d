import Avetti.Setup.Parameters
import Mathlib.Algebra.Group.Nat.Defs

/-!
# The requirements of setup.sh

Before it changes the configuration of the system, `setup.sh` checks the clients it needs, asks for
the MySQL server, the web server and the version of the code, and creates the group and the users.

## Main definitions

* `Vars`: the variables of `setup.sh` after its parameter phase
* `mysqlClient`: a call of a MySQL client
* `checkSvn`, `checkMysql`, `checkJava`, `checkNetcat`: the checks of the clients
* `mysqlServer`: the questions about the MySQL server, and the list of its databases
* `webServer`, `codeVersion`: the questions about the web server and the version
* `createUsers`: the group and the users
-/

open Script

namespace Avetti

/-- The variables of `setup.sh` after its parameter phase. -/
structure Vars extends Params where
  mysqlHost : Text
  mysqlPort : Text
  allDb : Text
  httpdPath : Text
  path_to_code : Text
  code_to_install : Text
  avettisvnuser : Text
  avettisvnpassword : Text
  JAVA_HOME : Text
  coreDir : Text
  deriving DecidableEq

/-- The path of the code that is installed by default. -/
def defaultPath : Text := "commerce8.5/tags/enterprise/Commerce8.5.2-enterprise"

/-- `rev | cut -d'/' -f1 | rev` on a line, and the same with `-f2` for `n = 2`. -/
def codeOf (n : ℕ) (line : Text) : Text := (Text.cut '/' n line.reverse).reverse

/-- The variables at the end of the parameter phase, for the `JAVA_HOME` of the environment. -/
def Vars.ofParams (p : Params) (JAVA_HOME : Text) : Vars where
  toParams := p
  mysqlHost := "localhost"
  mysqlPort := "3306"
  allDb := []
  httpdPath := []
  path_to_code := defaultPath
  code_to_install := codeOf 1 defaultPath
  avettisvnuser := []
  avettisvnpassword := []
  JAVA_HOME := JAVA_HOME
  coreDir := []

/-- `[[ -e /usr/bin/yum ]] || [[ -e /bin/yum ]]`. -/
def hasYum : Sh Bool := do
  if ← fileTest "-e" "/usr/bin/yum" then return true
  else fileTest "-e" "/bin/yum"

/-- `[ -e /usr/bin/apt-get ]`. -/
def hasApt : Sh Bool := fileTest "-e" "/usr/bin/apt-get"

/-- `errorFound`. -/
def errorFound {α : Type} : Sh α := leave 1

section Requirements

variable (glob : Text → List Text) (v : Vars)

/-! ## Clients -/

/-- The check of the svn client; a missing client is installed. -/
def checkSvn : Sh Unit := do
  let status ← run ["svn", "--version", "--quiet"]
  if ← failed .svnVersion status then
    if ← hasYum then
      let status ← teed ["yum", "install", "-y", "subversion"]
      if ← failed .yumSubversion status then errorFound
    else if ← hasApt then
      let _ ← teed ["apt-get", "update"]
      let status ← teed ["apt-get", "install", "-y", "subversion"]
      if ← failed .aptSubversion status then errorFound

/-- The check of the MySQL client, for an installation without the MySQL server. -/
def checkMysql : Sh Unit :=
  ifThen v.nomysql do
    let status ← run ["mysql", "--version"]
    if ← failed .mysqlVersion status then
      if ← hasYum then
        let status ← teed ["yum", "install", "-y", "mysql"]
        if ← failed .yumMysql status then errorFound
      else if ← hasApt then
        let _ ← run ["apt-get", "update"]
        let status ← teed ["apt-get", "install", "-y", "mysql-client"]
        if ← failed .aptMysqlClient status then errorFound

/-- The check of the Java compiler, for an installation without Java. -/
def checkJava : Sh Unit :=
  ifThen v.nojava do
    let status ← run [v.JAVA_HOME ++ "/bin/javac".toList, "-version"]
    if ← failed .javacVersion status then errorFound

/-- The check of netcat; whether it can be installed is not looked at. -/
def checkNetcat : Sh Unit := do
  let status ← run ["which", "nc"]
  if ← failed .whichNc status then
    if ← hasYum then
      let _ ← teed ["yum", "install", "-y", "nc"]
    else if ← hasApt then
      let _ ← run ["apt-get", "update"]
      let _ ← teed ["apt-get", "install", "-y", "nc"]

/-! ## The MySQL server -/

/-- The words of an unquoted variable, with what is written before it, under `IFS=$'\n'`. -/
def unquotedVar (pre x : Text) : List Text := Shell.unquoted glob ['\n'] (pre ++ x)

/-- `mysql -uuser -ppassword -h host -P port -e statement` for `apart`, and with `-hhost -Pport`
otherwise; without a password there is no `-p`. -/
def mysqlClient (user : Text) (password : Option Text) (apart : Bool) (statement : Text) :
    List Text :=
  ["mysql".toList, "-u".toList ++ user] ++
    password.elim [] (unquotedVar glob "-p") ++
    (if apart then
      ["-h".toList] ++ unquotedVar glob [] v.mysqlHost ++
        ["-P".toList] ++ unquotedVar glob [] v.mysqlPort
    else unquotedVar glob "-h" v.mysqlHost ++ unquotedVar glob "-P" v.mysqlPort) ++
    ["-e".toList, statement]

/-- The password a client passes for a variable that is tested to be empty first. -/
def passwordOf (pwd : Text) : Option Text := if pwd = [] then none else some pwd

/-- The statement that lists the databases. -/
def showDatabases : Text := "show databases;"

/-- The number that the shell reads from digits: in base 8 after a leading `0`, and in base 10
otherwise, with 64 bits. A digit that the base does not have is an error. -/
def shellNumber (w : Text) : Option ℕ :=
  let base := if w.head? = some '0' then 8 else 10
  match Shell.digits base w.length w 0 with
  | (_, value, []) => some (value % 2 ^ 64)
  | _ => none

/-- `[[ ${answer} -ne "" ]]`: a number is compared with zero, and an error makes the test false; how
an expression that does not consist of digits evaluates is left to the environment. -/
def isNonzero (answer : Text) : Sh Bool :=
  if answer.all Char.isDigit then pure ((shellNumber answer).any (· ≠ 0))
  else fileTest "-ne" answer

/-- The port of the MySQL server, asked for when the probe of the default port fails. -/
def mysqlPortAnswer : Sh Text := do
  let status ← run ("nc".toList :: "-z".toList :: unquotedVar glob [] v.mysqlHost ++
    ["3306".toList])
  if ← failed .ncPort status then
    let mysqlPort2 ← ask "mysqlPort2"
    if ← isNonzero mysqlPort2 then return mysqlPort2
    else return "3306".toList
  else return v.mysqlPort

/-- The listing shows that the server was not reached: `[[ echo $allDb | grep word ]]`, and the
client ended with 1. -/
def unreachable (allDb word : Text) (mysqlErr : Int) : Bool :=
  Text.grep (Text.Occurs word) (Shell.echo (Shell.unquoted glob ['\n'] allDb)) ≠ [] ∧ mysqlErr = 1

/-- The list of the databases; an error of the client ends the script. -/
def listDatabases : Sh Text := do
  let client := mysqlClient glob v "root" (passwordOf v.mysqlRootPwd) true showDatabases
  let mysqlErr ← run client
  let allDb ← capture client
  ifThen (unreachable glob allDb "denied" mysqlErr) errorFound
  ifThen (unreachable glob allDb "connect" mysqlErr) errorFound
  return allDb

/-- The questions about the MySQL server, for an installation without it, and the list of its
databases. The host that was typed is not used: the test is on the variable `myqlHost2`, which is
not set. -/
def mysqlServer : Sh Vars :=
  if v.nomysql then do
    let _ ← ask "mysqlHost2"
    let v := { v with mysqlHost := "localhost".toList }
    let mysqlPort ← mysqlPortAnswer glob v
    let v := { v with mysqlPort := mysqlPort }
    let allDb ← listDatabases glob v
    return { v with allDb := allDb }
  else pure v

/-! ## The web server and the version -/

/-- The question about the web server, for an installation without it. -/
def webServer : Sh Vars := do
  if v.nohttpd then
    let answer4 ← ask "answer4"
    if ← fileTest "-x" (answer4 ++ "/bin/httpd".toList) then
      return { v with httpdPath := answer4 }
    else errorFound
  else return { v with httpdPath := "/avetti/httpd".toList }

/-- The address of a path in the repository of the code. -/
def repository (path : Text) : Text :=
  "https://svn.avetticommerce.com/software/avetticommerce/".toList ++ path

/-- `svn info` for the credentials that were typed; a failure ends the script. -/
def svnInfo (v : Vars) : Sh Unit := do
  let status ← run (["svn".toList, "info".toList, "--no-auth-cache".toList,
      "--trust-server-cert".toList, "--non-interactive".toList] ++
    unquotedVar glob "--username=" v.avettisvnuser ++
    unquotedVar glob "--password=" v.avettisvnpassword ++
    unquotedVar glob (repository []) v.path_to_code)
  if ← failed .svnInfo status then leave 1

/-- `echo $x | filter`, as a command substitution gives it, for a filter that works on lines. -/
def echoed (filter : Text → Text) (x : Text) : Text :=
  Text.chomp (Text.unlines ((Text.lines (Shell.echo (Shell.unquoted glob ['\n'] x))).map filter))

/-- The path that was typed, without a first component that is empty. -/
def typedPath (answer3 : Text) : Text :=
  if echoed glob (Text.cut '/' 1) answer3 = [] then echoed glob (Text.cutFrom '/' 2) answer3
  else answer3

/-- The last component of the path, or the one before it when the path ends with `/`. -/
def codeOfPath (path : Text) : Text :=
  if echoed glob (codeOf 1) path = [] then echoed glob (codeOf 2) path
  else echoed glob (codeOf 1) path

/-- The question about the version, and the credentials for it. -/
def codeVersion : Sh Vars := do
  let answer2 ← ask "answer2"
  if ← test (Shell.words ['\n'] (Text.grep (isOneOf ["y"]) (Shell.echo ["-e", answer2]))) then
    let user ← ask "avettisvnuser"
    let password ← ask "avettisvnpassword"
    let v := { v with avettisvnuser := user, avettisvnpassword := password }
    svnInfo glob v
    return v
  else if ← test (Shell.words ['\n'] (Text.grep (isOneOf ["n"]) (Shell.echo ["-e", answer2]))) then
    let answer3 ← ask "answer3"
    let user ← ask "avettisvnuser"
    let password ← ask "avettisvnpassword"
    let v := { v with
      avettisvnuser := user
      avettisvnpassword := password
      path_to_code := typedPath glob answer3 }
    svnInfo glob v
    return { v with code_to_install := codeOfPath glob v.path_to_code }
  else leave 0

/-! ## The group and the users -/

/-- The additional packages; whether they can be installed is not looked at. -/
def installRequirements : Sh Unit := do
  if ← hasYum then
    let _ ← teed ["yum", "install", "-y", "openssl", "openssl-devel", "zlib", "zlib-devel",
      "chkconfig", "gcc", "glibc", "make", "less", "vi", "dos2unix", "cmake", "wget",
      "ncurses-devel", "gcc-c++", "bind-utils"]
  else if ← hasApt then
    let _ ← run ["apt-get", "update"]
    let _ ← teed ["apt-get", "install", "-y", "-q", "zlibc", "openssl", "libssl-dev", "zlib-bin",
      "libjzlib-java", "gcc", "glibc-*", "make", "vim", "dos2unix", "libncurses5-dev",
      "build-essential", "zlib1g", "zlib1g-dev", "dnsutils"]

/-- The group `apache`. -/
def createGroup : Sh Unit := do
  if (← capture ["grep", "^apache:", "/etc/group"]) = [] then
    let status ← teed ["groupadd", "apache"]
    if ← failed .groupadd status then errorFound

/-- A user of the group `apache`, with the options for `useradd`. -/
def createUser (name : Text) (options : List Text) : Sh Unit := do
  if (← capture ["grep", name ++ ":".toList, "/etc/passwd"]) ≠ [] then
    let _ ← run ["usermod", "-g", "apache", name]
  else
    let status ← run ("useradd".toList :: options ++ ["-g".toList, "apache".toList, name])
    if ← failed .useradd status then errorFound

/-- The group and the users. -/
def createUsers : Sh Unit := do
  createGroup
  createUser "tomcat" ["-r", "-s", "/sbin/nologin"]
  createUser "httpd" ["-r", "-s", "/sbin/nologin"]
  createUser "avetti" ["-m", "-s", "/bin/bash"]

end Requirements

end Avetti
