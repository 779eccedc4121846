import Foreman.Coordinator
import Foreman.Notifier
import Foreman.Release.Desk

/-!
The whole service: the desk with its store, the coordinator if there is a driver for builds, and
the clients.
-/

namespace Foreman

structure Service (C : Type) where
  desk : ReleaseDesk
  coordinator : Option Coordinator
  notifier : Notifier C

namespace Service

variable {C : Type} [Recipient C]

def store (s : Service C) : Store := s.desk.store

def withStore (s : Service C) (store : Store) : Service C :=
  { s with desk := { s.desk with store } }

/-- Tells the clients of a build. -/
def publishBuild (send : Notification → Notifier.Send C) (s : Service C) (n : Notification)
    (configuration : ResourceId) : Service C :=
  { s with
    notifier := (s.notifier.publish (send n) Notification.buildTopic configuration.text).2 }

/-- Tells the clients of an attempt to release a milestone. -/
def publishAttempt (send : Notification → Notifier.Send C) (s : Service C) (a : ReleaseAttempt) :
    Service C :=
  { s with
    notifier := (s.notifier.publish (send (.releaseChanged a.milestone a.status))
      Notification.releaseTopic a.milestone.text).2 }

end Service

end Foreman
