import Avetti.Setup.Requirements

/-!
# The system configuration of setup.sh

The functions of `setup.sh` that install and configure the parts of the system, and its edits of
the host, the users allowed to restart services and the profile.

## Main definitions

* `setHostname`, `setHosts`, `setSudoers`: the edits of the host and of `sudoers`
* `installMysql`, `installJava`, `installHttpd`: the installations
* `configureMysql`, `configureHttpd`, `configureTomcat`, `updateChkconfig`: the configurations
* `grantStatement`: the statement that grants a database to the user `avetti`
* `vhostEdits`: the edits of `httpd-vhosts.conf`
-/

open Script

namespace Avetti

/-- `sed -i script path`. -/
def sed (script path : Text) : List Text := ["sed".toList, "-i".toList, script, path]

/-- `s/pattern/replacement/g`. -/
def substituteAll (pattern replacement : Text) : Text :=
  "s/".toList ++ pattern ++ "/".toList ++ replacement ++ "/g".toList

/-- `${path//\//\\/}`: every `/` preceded by a backslash. -/
def escapeSlashes (path : Text) : Text := path.flatMap fun c => if c = '/' then ['\\', '/'] else [c]

/-- `echo text >>path`. -/
def appendTo (text path : Text) : Sh Unit := do
  let _ ← command (.append text path)

/-- `echo text >path`. -/
def writeTo (text path : Text) : Sh Unit := do
  let _ ← command (.write text path)

section System

variable (glob : Text → List Text) (v : Vars)

/-! ## The host -/

/-- The host name in the file the system reads it from. -/
def writeHostname : Sh Unit := do
  if ← fileTest "-d" "/etc/sysconfig" then
    if (← capture ["grep", v.appHostName, "/etc/sysconfig/network"]) = [] then
      let _ ← run ["mv", "/etc/sysconfig/network", "/etc/sysconfig/old-network"]
      writeTo "NETWORKING=yes\n" "/etc/sysconfig/network"
      appendTo ("HOSTNAME=".toList ++ v.appHostName ++ "\n".toList) "/etc/sysconfig/network"
  else if ← fileTest "-e" "/etc/hostname" then
    if (← capture ["cat", "/etc/hostname"]) ≠ v.appHostName then
      let _ ← run ["mv", "/etc/hostname", "/etc/old-hostname"]
      writeTo (v.appHostName ++ "\n".toList) "/etc/hostname"

/-- The host name of the system. -/
def setHostname : Sh Unit := do
  writeHostname v
  let _ ← run ["hostname", v.appHostName]

/-- The edit of `/etc/hosts`, when the name server does not know the host. -/
def setHosts : Sh Unit := do
  if (← capture ["dig", "+short", v.appHostName]) = [] then
    if (← capture ["grep", v.appHostName, "/etc/hosts"]) = [] then
      let _ ← run (sed ("/^127.0.0.1/ s/$/ ".toList ++ v.appHostName ++ "/".toList) "/etc/hosts")

/-- What the user `avetti` may run, with the path of `service`. -/
def sudoersLine (service : Text) : Text :=
  "avetti ALL= NOPASSWD: ".toList ++ service ++
    ", /bin/chown, /bin/chmod, /avetti/httpd/bin/apachectl\n".toList

/-- The edit of `/etc/sudoers`. -/
def setSudoers : Sh Unit := do
  let granted ← command (.run ["grep", "avetti", "/etc/sudoers"])
  if Text.grep (Text.Occurs "service") granted.out = [] then
    if ← fileTest "-e" "/sbin/service" then
      appendTo (sudoersLine "/sbin/service") "/etc/sudoers"
    else if ← fileTest "-e" "/usr/sbin/service" then
      appendTo (sudoersLine "/usr/sbin/service") "/etc/sudoers"

/-! ## Installations -/

/-- The link to `insserv`, unless it exists. -/
def linkInsserv : Sh Unit := do
  if ¬ (← fileTest "-e" "/sbin/insserv") then
    let _ ← run ["ln", "-s", "/usr/lib/insserv/insserv", "/sbin/insserv"]

/-- `installMysql`. -/
def installMysql : Sh Unit := do
  if ← hasYum then
    let _ ← teed ["yum", "install", "-y", "mysql-server"]
    service "mysqld" "start"
    let _ ← teed ["chkconfig", "mysqld", "on"]
  else if ← hasApt then
    let _ ← run ["apt-get", "update"]
    let _ ← teed ["apt-get", "install", "-y", "-q", "mysql-server"]
    let status ← command (.run ["service", "mysql", "status"])
    if Text.grep (Text.Occurs "running") status.out = [] then
      linkInsserv
      service "mysql" "start"

/-- `export JAVA_HOME=path`, also in `/etc/profile`. -/
def exportJavaHome (path : Text) : Sh Text := do
  appendTo ("export JAVA_HOME=".toList ++ path ++ "\n".toList) "/etc/profile"
  return path

/-- `installJava`; its value is `JAVA_HOME`. The test `[ "${JAVA_HOME}"=="" ]` has one operand,
which is not empty, and always holds. -/
def installJava : Sh Text := do
  if ← hasYum then
    let _ ← teed ["yum", "install", "-y", "java-1.7.0-openjdk-devel"]
    if ← test [v.JAVA_HOME ++ "==".toList] then
      exportJavaHome "/usr/lib/jvm/java-1.7.0"
    else return v.JAVA_HOME
  else if ← hasApt then
    let _ ← run ["apt-get", "update"]
    let _ ← run ["apt-get", "install", "-y", "-q", "openjdk-7-jdk"]
    if ← test [v.JAVA_HOME ++ "==".toList] then
      if ← fileTest "-e" "/usr/lib/jvm/java-7-openjdk" then
        exportJavaHome "/usr/lib/jvm/java-7-openjdk"
      else if ← fileTest "-e" "/usr/lib/jvm/java-7-openjdk-i386" then
        exportJavaHome "/usr/lib/jvm/java-7-openjdk-i386"
      else exportJavaHome "/usr/lib/jvm/java-7-openjdk-amd64"
    else return v.JAVA_HOME
  else return v.JAVA_HOME

/-- The beginning of `/etc/init.d/httpd`. -/
def httpdHeader : Text :=
  "#\n# Startup script for the Apache Web Server\n#\n# chkconfig: - 85 15\n".toList ++
  "# description: Apache is a World Wide Web server. It is used to serve\n".toList ++
  "# HTML files and CGI.\n# processname: httpd\n# pidfile: /avetti/httpd/logs/httpd.pid\n".toList ++
  "# config: /avetti/httpd/conf/httpd.conf\n".toList

/-- A step whose failure, as `$?` shows it, ends the script. -/
def checkedStep (c : Check) (step : Sh Int) : Sh Unit := do
  let status ← step
  if ← failed c status then leave 1

/-- `installHttpd`. -/
def installHttpd : Sh Unit := do
  let _ ← run ["tar", "-zxvf", "httpd-2.2.26.tar.gz"]
  checkedStep .configure (teed ["./configure", "--prefix=/avetti/httpd",
    "--sbindir=/avetti/httpd/bin", "--enable-mods-shared=all", "--enable-proxy", "--enable-ssl"])
  checkedStep .make (teed ["make"])
  checkedStep .makeInstall (teed ["make", "install"])
  writeTo httpdHeader "/etc/init.d/httpd"
  let apachectl ← command (.run ["cat", "/avetti/httpd/bin/apachectl"])
  appendTo apachectl.out "/etc/init.d/httpd"
  checkedStep .chmodHttpd (run ["chmod", "+x", "/etc/init.d/httpd"])

/-! ## Configurations -/

/-- The statement that grants a database to the user `avetti` on a host. -/
def grantStatement (db host pwd : Text) : Text :=
  "GRANT ALL PRIVILEGES ON ".toList ++ db ++ ".* TO 'avetti'@'".toList ++ host ++
    "' identified by '".toList ++ pwd ++ "';".toList

/-- The grants of the three databases, through one form of the client. -/
def grants (apart : Bool) (host : Text) : Sh Unit := do
  let root := mysqlClient glob v "root" (passwordOf v.mysqlRootPwd) apart
  let _ ← run (root (grantStatement "preview" host v.mysqlAvettiPwd))
  let _ ← run (root (grantStatement "shop" host v.mysqlAvettiPwd))
  let _ ← run (root (grantStatement "backup" host v.mysqlAvettiPwd))

/-- `configureMysql`. Its four branches differ in the password of `root`, in the form of the
client and in the host that is granted access. -/
def configureMysql : Sh Unit := do
  ifThen (v.nomysql = false ∧ v.mysqlRootPwd ≠ []) do
    let _ ← teed (["mysqladmin".toList, "-uroot".toList, "password".toList] ++
      unquotedVar glob [] v.mysqlRootPwd)
  if v.mysqlHost = "localhost".toList then grants glob v true "localhost"
  else grants glob v false "%"

/-- The domain of the server: the second and third label of the host name, unless it has a fourth
one. -/
def serverdomain (appHostName : Text) : Text :=
  if appHostName ≠ "localhost".toList ∧ Text.cut '.' 4 appHostName = [] then
    Text.cutRange '.' 2 3 appHostName
  else appHostName

/-- The edits of `httpd-vhosts.conf`, in order. -/
def vhostEdits : List Text :=
  [substituteAll "c8prod1.yourdomain.com" v.appHostName,
    substituteAll "yourdomain.com" (serverdomain v.appHostName),
    substituteAll "rotatelogs.exe" "rotatelogs",
    substituteAll "httpdpath" (escapeSlashes v.httpdPath)]

/-- Edits of one file, in order. -/
def edits (scripts : List Text) (path : Text) : Sh Unit :=
  match scripts with
  | [] => pure ()
  | script :: scripts => do
    let _ ← run (sed script path)
    edits scripts path

/-- `httpd.conf` below the path of the web server. -/
def httpdConf : Text := v.httpdPath ++ "/conf/httpd.conf".toList

/-- `httpd-vhosts.conf` below the path of the web server. -/
def vhostsConf : Text := v.httpdPath ++ "/conf/extra/httpd-vhosts.conf".toList

/-- The user and the group of the web server in `httpd.conf`. -/
def configureIdentity : Sh Unit := do
  let users ← command (.run ["grep", "User ", httpdConf v])
  let apacheUser := Text.chomp (Text.cutLines ' ' 2
    (Text.grep (fun l => ¬ Text.Occurs "#" l) users.out))
  let groups ← command (.run ["grep", "Group ", httpdConf v])
  let apacheGroup := Text.chomp (Text.cutLines ' ' 2 groups.out)
  ifThen (apacheUser ≠ "httpd".toList) do
    let _ ← run (sed (substituteAll ("User ".toList ++ apacheUser) "User httpd") (httpdConf v))
  ifThen (apacheGroup ≠ "apache".toList) do
    let _ ← run (sed (substituteAll ("User ".toList ++ apacheGroup) "Group apache") (httpdConf v))

/-- The secure configuration, unless `httpd.conf` includes it. -/
def configureSsl : Sh Unit := do
  let lines ← command (.run ["grep", "ssl.conf", httpdConf v])
  ifThen (Text.grep (fun l => ¬ Text.Occurs "#" l) lines.out = []) do
    let _ ← run (sed (substituteAll "#Include conf\\/extra\\/httpd-ssl.conf"
      "Include conf\\/extra\\/httpd-ssl.conf") (httpdConf v))
    edits [substituteAll "server.crt" "temporary.crt",
      substituteAll "server.key" "temporary.nopass.key"]
      (v.httpdPath ++ "/conf/extra/httpd-ssl.conf".toList)

/-- The configuration of the shop, unless `httpd.conf` includes it. -/
def configureInclude : Sh Unit := do
  let lines ← command (.run ["grep", "avetti.conf", httpdConf v])
  ifThen (Text.grep (fun l => ¬ Text.Occurs "#" l) lines.out = []) do
    appendTo "# Including Avetti configuration\nInclude conf/extra/avetti.conf\n" (httpdConf v)
    let _ ← run ["cp", "/avetti/httpd-conf/conf/extra/avetti.conf",
      v.httpdPath ++ "/conf/extra/avetti.conf".toList]

/-- The virtual hosts, unless the host is found in their configuration. -/
def configureVhosts : Sh Unit := do
  if (← capture ["grep", v.appHostName, vhostsConf v]) = [] then
    let _ ← run ["cp", "/avetti/httpd-conf/conf/extra/httpd-vhosts.conf", vhostsConf v]
    edits (vhostEdits v) (vhostsConf v)

/-- `configureHttpd`. -/
def configureHttpd : Sh Unit := do
  configureIdentity v
  configureSsl v
  configureInclude v
  let _ ← run (sed (substituteAll "#ServerName www.example.com:80"
    ("ServerName ".toList ++ v.appHostName ++ ":80".toList)) (httpdConf v))
  configureVhosts v

/-- `configureTomcat`. -/
def configureTomcat : Sh Unit := do
  if ¬ (← fileTest "-e" "/etc/init.d/tomcat") then
    let _ ← run ["cp", "/avetti/scripts/tomcat", "/etc/init.d/tomcat"]
    let _ ← run (sed (substituteAll "avetti_java_home" (escapeSlashes v.JAVA_HOME))
      "/etc/init.d/tomcat")
    let _ ← run ["cd", "/avetti/tomcat/bin/commons-daemon-*"]
    let PWD ← capture ["pwd"]
    let _ ← run (sed (substituteAll "avetti_daemon_home" (escapeSlashes PWD))
      "/etc/init.d/tomcat")
    let _ ← run ["./configure", "--with-java=".toList ++ v.JAVA_HOME]
    let _ ← run ["make", "clean"]
    let _ ← run ["make"]
    let _ ← run ["cp", "jsvc", "/avetti/tomcat/bin"]
    let _ ← run ["chmod", "755", "/etc/init.d/tomcat"]

/-- `updateChkconfig`. -/
def updateChkconfig : Sh Unit := do
  let _ ← teed ["chkconfig", "--add", "httpd"]
  let _ ← teed ["chkconfig", "--add", "tomcat"]
  let _ ← teed ["chkconfig", "httpd", "on"]
  checkedStep .chkconfigTomcat (teed ["chkconfig", "tomcat", "on"])

end System

end Avetti
