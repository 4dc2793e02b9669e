import BlockExchange.Config
import BlockExchange.Exchange.Error
import BlockExchange.Text.Blank

namespace BlockExchange.Hello

def ofConfiguration (c : Configuration) (s : ConnectionSettings) : Hello :=
  ⟨c.name, s.clientName, s.clientVersion⟩

def check (h : Hello) : Except ExchangeError Unit :=
  if Text.allBlank h.deviceName then .error (.hello .noDeviceName)
  else if Text.allBlank h.clientName then .error (.hello .noClientName)
  else .ok ()

end BlockExchange.Hello
